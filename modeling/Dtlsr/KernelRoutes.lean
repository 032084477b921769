import Dtlsr.Lib.Memory
import Dtlsr.Lib.Trace
import Dtlsr.RouteControl

/-!
    The kernel's route table over many calls of `update_routing_table`. As a set of routes,
    `curr_routes` is a memory of bounded size that enters the routes derived by a call and then forgets
    all others; a route that it has no room for is added to the kernel all the same, and is not deleted
    when later calls no longer derive it. -/

namespace Dtlsr
open Checked

/-- What identifies a route. -/
structure KernelRoute where
  dst : Ip
  gateway : Ip
  metric : ℤ
  deriving DecidableEq

def RtEntry.route (rt : RtEntry) : KernelRoute :=
  { dst := rt.dst, gateway := rt.gateway, metric := rt.metric }

def SimpleRt.route (rt : SimpleRt) : KernelRoute :=
  { dst := rt.dst, gateway := rt.gateway, metric := rt.metric }

theorem simpleRtEq_iff {rt1 rt2 : SimpleRt} : simpleRtEq rt1 rt2 = true ↔ rt1.route = rt2.route := by
  simp [simpleRtEq, SimpleRt.route, and_assoc]

/-! ### The routes in `curr_routes` -/

/-- No two entries that exist are the same route. -/
def NoDuplicates (routes : CurrRoutes) : Prop :=
  ∀ i j, (routes i).rtExists = true → (routes j).rtExists = true →
    (routes i).route = (routes j).route → i = j

/-- The routes of the entries with `p`. -/
def routesWhere (p : SimpleRt → Bool) (routes : CurrRoutes) : Finset KernelRoute :=
  (Finset.univ.filter fun i => p (routes i) = true).image fun i => (routes i).route

/-- The routes of the entries that exist. -/
def heldRoutes (routes : CurrRoutes) : Finset KernelRoute := routesWhere SimpleRt.rtExists routes

/-- The routes of those that are marked as seen. -/
def markedRoutes (routes : CurrRoutes) : Finset KernelRoute :=
  routesWhere (fun rt => rt.rtExists && rt.seen) routes

variable {p : SimpleRt → Bool} {routes : CurrRoutes} {r : KernelRoute}

theorem mem_routesWhere : r ∈ routesWhere p routes ↔
    ∃ i, p (routes i) = true ∧ (routes i).route = r := by
  simp [routesWhere]

theorem mem_held : r ∈ heldRoutes routes ↔ ∃ i, (routes i).rtExists = true ∧ (routes i).route = r :=
  mem_routesWhere

/-- An entry is filled, or written again with its own route. -/
theorem routesWhere_update {i : Fin maxNodeNum} (rt : SimpleRt) (hrt : p rt = true)
    (hi : p (routes i) = true → (routes i).route = rt.route) :
    routesWhere p (Function.update routes i rt) = insert rt.route (routesWhere p routes) := by
  ext r
  rw [Finset.mem_insert, mem_routesWhere, mem_routesWhere]
  constructor
  · rintro ⟨j, hj, rfl⟩
    rcases eq_or_ne j i with rfl | hji
    · rw [Function.update_self]
      exact Or.inl rfl
    · rw [Function.update_of_ne hji] at hj ⊢
      exact Or.inr ⟨j, hj, rfl⟩
  · rintro (rfl | ⟨j, hj, rfl⟩)
    · exact ⟨i, by rw [Function.update_self]; exact ⟨hrt, rfl⟩⟩
    · rcases eq_or_ne j i with rfl | hji
      · exact ⟨j, by rw [Function.update_self]; exact ⟨hrt, (hi hj).symm⟩⟩
      · exact ⟨j, by rw [Function.update_of_ne hji]; exact ⟨hj, rfl⟩⟩

theorem NoDuplicates.card_held (h : NoDuplicates routes) :
    (heldRoutes routes).card = (Finset.univ.filter fun i => (routes i).rtExists = true).card := by
  refine Finset.card_image_of_injOn fun i hi j hj hij => ?_
  exact h i j (Finset.mem_filter.mp hi).2 (Finset.mem_filter.mp hj).2 hij

/-- There is room exactly when some entry does not exist. -/
theorem NoDuplicates.room_iff (h : NoDuplicates routes) :
    (heldRoutes routes).card < maxNodeNum ↔ ∃ i, (routes i).rtExists = false := by
  rw [h.card_held]
  constructor
  · intro hlt
    by_contra hnone
    have hall : (Finset.univ.filter fun i => (routes i).rtExists = true) = Finset.univ :=
      Finset.filter_true_of_mem fun i _ => by simpa using not_exists.mp hnone i
    rw [hall, Finset.card_univ, Fintype.card_fin] at hlt
    exact lt_irrefl _ hlt
  · rintro ⟨i, hi⟩
    have hss : (Finset.univ.filter fun i => (routes i).rtExists = true) ⊂ Finset.univ :=
      Finset.filter_ssubset.mpr ⟨i, Finset.mem_univ i, by simp [hi]⟩
    simpa using Finset.card_lt_card hss

variable {routes' : CurrRoutes}

/-- Entries that differ in their marks only. -/
def SameRoutes (routes routes' : CurrRoutes) : Prop :=
  ∀ i, (routes' i).rtExists = (routes i).rtExists ∧ (routes' i).route = (routes i).route

theorem SameRoutes.noDuplicates (h : SameRoutes routes routes') (hdup : NoDuplicates routes) :
    NoDuplicates routes' := by
  intro i j hi hj hij
  rw [(h i).1] at hi
  rw [(h j).1] at hj
  rw [(h i).2, (h j).2] at hij
  exact hdup i j hi hj hij

theorem SameRoutes.heldRoutes (h : SameRoutes routes routes') :
    heldRoutes routes' = heldRoutes routes := by
  ext r
  rw [mem_held, mem_held]
  exact exists_congr fun i => by rw [(h i).1, (h i).2]

theorem markRoutesUnseen_same (routes : CurrRoutes) : SameRoutes routes (markRoutesUnseen routes) :=
  fun _ => ⟨rfl, rfl⟩

theorem marked_unseen (routes : CurrRoutes) : markedRoutes (markRoutesUnseen routes) = ∅ := by
  refine Finset.eq_empty_of_forall_notMem fun r hr => ?_
  obtain ⟨i, hi, -⟩ := mem_routesWhere.mp hr
  simp [markRoutesUnseen] at hi

theorem mark_same (i : Fin maxNodeNum) :
    SameRoutes routes (Function.update routes i { routes i with seen := true }) := by
  intro j
  rcases eq_or_ne j i with rfl | hj
  · rw [Function.update_self]
    exact ⟨rfl, rfl⟩
  · rw [Function.update_of_ne hj]
    exact ⟨rfl, rfl⟩

/-- A route that is new to the table goes into an entry that does not exist. -/
theorem NoDuplicates.add {i : Fin maxNodeNum} {rt : SimpleRt} (hdup : NoDuplicates routes)
    (hnew : rt.route ∉ heldRoutes routes) : NoDuplicates (Function.update routes i rt) := by
  have hother : ∀ j, (routes j).rtExists = true → (routes j).route ≠ rt.route :=
    fun j hj heq => hnew (mem_held.mpr ⟨j, hj, heq⟩)
  intro j k hj hk hjk
  by_cases hji : j = i <;> by_cases hki : k = i
  · rw [hji, hki]
  · rw [hji, Function.update_self, Function.update_of_ne hki] at hjk
    rw [Function.update_of_ne hki] at hk
    exact absurd hjk.symm (hother k hk)
  · rw [hki, Function.update_self, Function.update_of_ne hji] at hjk
    rw [Function.update_of_ne hji] at hj
    exact absurd hjk (hother j hj)
  · rw [Function.update_of_ne hji] at hj hjk
    rw [Function.update_of_ne hki] at hk hjk
    exact hdup j k hj hk hjk

theorem marked_mark {i : Fin maxNodeNum} (hi : (routes i).rtExists = true) :
    markedRoutes (Function.update routes i { routes i with seen := true }) =
      insert (routes i).route (markedRoutes routes) :=
  routesWhere_update { routes i with seen := true } (by simpa using hi) fun _ => rfl

/-- `mark_route_seen` enters the route, and marks it if it is then held. -/
theorem markRouteSeen_spec (rt : RtEntry) (hdup : NoDuplicates routes) :
    NoDuplicates (markRouteSeen routes rt) ∧
    heldRoutes (markRouteSeen routes rt) = Memory.enter maxNodeNum (heldRoutes routes) rt.route ∧
    ∀ r, r ∈ markedRoutes (markRouteSeen routes rt) ↔
      r ∈ markedRoutes routes ∨ r = rt.route ∧ r ∈ heldRoutes (markRouteSeen routes rt) := by
  unfold markRouteSeen
  split
  · rename_i i hfound
    obtain ⟨hi, -⟩ := find_finRange_eq_some.mp hfound
    obtain ⟨hexists, heq⟩ := (Bool.and_eq_true _ _).mp hi
    have hroute : (routes i).route = rt.route := simpleRtEq_iff.mp heq
    have hheld : rt.route ∈ heldRoutes routes := mem_held.mpr ⟨i, hexists, hroute⟩
    rw [(mark_same i).heldRoutes]
    refine ⟨(mark_same i).noDuplicates hdup, (Memory.enter_of_mem hheld).symm, fun r => ?_⟩
    rw [marked_mark hexists, Finset.mem_insert, hroute, or_comm]
    exact or_congr_right ⟨fun h => ⟨h, h ▸ hheld⟩, fun h => h.1⟩
  · rename_i hnone
    have hnew : rt.route ∉ heldRoutes routes := by
      intro hheld
      obtain ⟨i, hexists, hroute⟩ := mem_held.mp hheld
      refine List.find?_eq_none.mp hnone i (List.mem_finRange i) ?_
      exact (Bool.and_eq_true _ _).mpr ⟨hexists, simpleRtEq_iff.mpr hroute⟩
    unfold addToCurrRoutes
    split
    · rename_i i hfree
      obtain ⟨hi, -⟩ := find_finRange_eq_some.mp hfree
      rw [Bool.not_eq_true'] at hi
      have hroom : (heldRoutes routes).card < maxNodeNum := hdup.room_iff.mpr ⟨i, hi⟩
      have hheld : heldRoutes (Function.update routes i (getSimpleRt rt)) =
          insert rt.route (heldRoutes routes) :=
        routesWhere_update _ rfl fun h => absurd (hi.symm.trans h) Bool.false_ne_true
      have hmarked : markedRoutes (Function.update routes i (getSimpleRt rt)) =
          insert rt.route (markedRoutes routes) :=
        routesWhere_update _ rfl fun h => by simp [hi] at h
      refine ⟨hdup.add hnew, by rw [hheld, Memory.enter, if_pos hroom], fun r => ?_⟩
      rw [hheld, hmarked, Finset.mem_insert, or_comm]
      refine or_congr_right ⟨fun h => ⟨h, ?_⟩, fun h => h.1⟩
      rw [h]
      exact Finset.mem_insert_self _ _
    · rename_i hfull
      have hroom : ¬(heldRoutes routes).card < maxNodeNum := by
        intro hroom
        obtain ⟨i, hi⟩ := hdup.room_iff.mp hroom
        exact List.find?_eq_none.mp hfull i (List.mem_finRange i) (by rw [hi]; rfl)
      refine ⟨hdup, by rw [Memory.enter, if_neg hroom], fun r => ?_⟩
      exact ⟨Or.inl, fun h => h.elim id fun h => absurd (h.1 ▸ h.2) hnew⟩

/-- The loop over the derived routes; nothing that is held gets lost in it. -/
theorem markAll_spec {ι : Type} (f : ι → RtEntry) : ∀ {l : List ι} {routes : CurrRoutes},
    NoDuplicates routes → NoDuplicates (l.foldl (fun curr i => markRouteSeen curr (f i)) routes) ∧
      heldRoutes (l.foldl (fun curr i => markRouteSeen curr (f i)) routes) =
        Memory.enterAll maxNodeNum (heldRoutes routes) (l.map fun i => (f i).route) ∧
      ∀ r, r ∈ markedRoutes (l.foldl (fun curr i => markRouteSeen curr (f i)) routes) ↔
        r ∈ markedRoutes routes ∨ r ∈ l.map (fun i => (f i).route) ∧
          r ∈ heldRoutes (l.foldl (fun curr i => markRouteSeen curr (f i)) routes) := by
  intro l
  induction l with
  | nil =>
    intro routes hdup
    exact ⟨hdup, rfl, fun r => by simp⟩
  | cons i l ih =>
    intro routes hdup
    obtain ⟨hdup', hheld', hmarked'⟩ := markRouteSeen_spec (f i) hdup
    obtain ⟨hdup'', hheld'', hmarked''⟩ := ih hdup'
    refine ⟨hdup'', ?_, fun r => ?_⟩
    · rw [hheld'] at hheld''
      exact hheld''
    · rw [List.foldl_cons, hmarked'', hmarked', List.map_cons, List.mem_cons]
      have hstays : r ∈ heldRoutes (markRouteSeen routes (f i)) →
          r ∈ heldRoutes (l.foldl (fun curr i => markRouteSeen curr (f i))
            (markRouteSeen routes (f i))) := by
        intro h
        rw [hheld'']
        exact Memory.mem_enterAll_of_mem h
      constructor
      · rintro ((h | ⟨h, hin⟩) | ⟨h, hin⟩)
        · exact Or.inl h
        · exact Or.inr ⟨Or.inl h, hstays hin⟩
        · exact Or.inr ⟨Or.inr h, hin⟩
      · rintro (h | ⟨rfl | h, hin⟩)
        · exact Or.inl (Or.inl h)
        · rw [hheld''] at hin
          rcases Memory.mem_of_mem_enterAll hin with h | h
          · exact Or.inr ⟨h, by rw [hheld'']; exact hin⟩
          · exact Or.inl (Or.inr ⟨rfl, h⟩)
        · exact Or.inr ⟨h, hin⟩

/-- The sweep leaves the marked routes, and the routes it deletes are the others. -/
theorem removeMarkedRoutes_spec (hdup : NoDuplicates routes) :
    NoDuplicates (removeMarkedRoutes routes).1 ∧
      heldRoutes (removeMarkedRoutes routes).1 = markedRoutes routes ∧
      ∃ dels : List RtEntry, (removeMarkedRoutes routes).2 = dels.map .delRt ∧
        ∀ r, r ∈ dels.map RtEntry.route ↔ r ∈ heldRoutes routes ∧ r ∉ markedRoutes routes := by
  have hkept : ∀ i, ((removeMarkedRoutes routes).1 i).rtExists = true ↔
      (routes i).rtExists = true ∧ (routes i).seen = true := by
    intro i
    dsimp only [removeMarkedRoutes]
    cases he : (routes i).rtExists <;> cases hs : (routes i).seen <;>
      simp [stale, he, hs, SimpleRt.zero]
  have hroute : ∀ i, (routes i).seen = true → (removeMarkedRoutes routes).1 i = routes i := by
    intro i hs
    simp [removeMarkedRoutes, stale, hs]
  refine ⟨fun i j hi hj hij => ?_, ?_, ?_⟩
  · obtain ⟨hi, hsi⟩ := (hkept i).mp hi
    obtain ⟨hj, hsj⟩ := (hkept j).mp hj
    rw [hroute i hsi, hroute j hsj] at hij
    exact hdup i j hi hj hij
  · ext r
    rw [mem_held, markedRoutes, mem_routesWhere]
    refine exists_congr fun i => ?_
    rw [hkept, Bool.and_eq_true]
    exact and_congr_right fun h => by rw [hroute i h.2]
  · refine ⟨((List.finRange maxNodeNum).filter fun i => stale (routes i)).map fun i =>
      { setAddrs RtEntry.zero (routes i).gateway (routes i).dst with metric := (routes i).metric },
      by rw [List.map_map]; rfl, fun r => ?_⟩
    rw [List.map_map, List.mem_map]
    constructor
    · rintro ⟨i, hi, rfl⟩
      have hi : (routes i).rtExists = true ∧ (routes i).seen = false := by
        simpa [stale] using hi
      refine ⟨mem_held.mpr ⟨i, hi.1, rfl⟩, fun h => ?_⟩
      obtain ⟨j, hj, hji⟩ := mem_routesWhere.mp h
      obtain ⟨hj, hsj⟩ := (Bool.and_eq_true _ _).mp hj
      rw [hdup j i hj hi.1 hji, hi.2] at hsj
      cases hsj
    · rintro ⟨h, hnot⟩
      obtain ⟨i, hi, rfl⟩ := mem_held.mp h
      refine ⟨i, ?_, rfl⟩
      have hs : (routes i).seen = false := by
        cases hs : (routes i).seen
        · rfl
        · exact absurd (mem_routesWhere.mpr ⟨i, by simp [hi, hs], rfl⟩) hnot
      simp [stale, hi, hs]

/-! ### One call -/

/-- The kernel's set of routes after an `ioctl`. -/
def kernelStep (kernel : Finset KernelRoute) : Ioctl → Finset KernelRoute
  | .addRt rt => insert rt.route kernel
  | .delRt rt => kernel.erase rt.route

theorem kernel_adds : ∀ {l : List RtEntry} {kernel : Finset KernelRoute},
    r ∈ (l.map Ioctl.addRt).foldl kernelStep kernel ↔ r ∈ kernel ∨ r ∈ l.map RtEntry.route := by
  intro l
  induction l with
  | nil =>
    intro _
    simp
  | cons rt l ih =>
    intro kernel
    rw [List.map_cons, List.foldl_cons, ih, kernelStep, Finset.mem_insert,
      List.map_cons, List.mem_cons]
    tauto

theorem kernel_dels : ∀ {l : List RtEntry} {kernel : Finset KernelRoute},
    r ∈ (l.map Ioctl.delRt).foldl kernelStep kernel ↔ r ∈ kernel ∧ r ∉ l.map RtEntry.route := by
  intro l
  induction l with
  | nil =>
    intro _
    simp
  | cons rt l ih =>
    intro kernel
    rw [List.map_cons, List.foldl_cons, ih, kernelStep, Finset.mem_erase,
      List.map_cons, List.mem_cons]
    tauto

section Calls
variable {M : Type}

/-- The routes that `filter_next_hops` and `derive_rtentries` derive from a table, in order. -/
def derivedRoutes (this : LocalNode M) (nextHops : HopTable) : Exec (List KernelRoute) := do
  let routes ← deriveRtentries this (filterNextHops nextHops)
  pure ((routed (filterNextHops nextHops)).map fun i => (routes i).route)

theorem updateRoutingTable_calls {this : LocalNode M} {nextHops : HopTable} {curr curr' : CurrRoutes}
    {calls : List Ioctl} (h : updateRoutingTable this nextHops curr = .ok (curr', calls)) :
    ∃ routes all, deriveRtentries this (filterNextHops nextHops) = .ok routes ∧
      all = (routed (filterNextHops nextHops)).foldl (fun curr i => markRouteSeen curr (routes i))
        (markRoutesUnseen curr) ∧
      curr' = (removeMarkedRoutes all).1 ∧
      calls = addRoutes (filterNextHops nextHops) routes ++ (removeMarkedRoutes all).2 := by
  obtain ⟨routes, hroutes, h⟩ := bind_ok_iff.mp h
  dsimp only at h
  generalize hall : (routed (filterNextHops nextHops)).foldl
    (fun curr i => markRouteSeen curr (routes i)) (markRoutesUnseen curr) = all at h
  obtain ⟨rfl, rfl⟩ := Prod.mk.inj (Except.ok.inj h)
  exact ⟨routes, all, hroutes, hall.symm, rfl, rfl⟩

/-- What a call of `update_routing_table` does to `curr_routes` and to the kernel. -/
theorem updateRoutingTable_spec {this : LocalNode M} {nextHops : HopTable} {curr curr' : CurrRoutes}
    {calls : List Ioctl} (hdup : NoDuplicates curr)
    (h : updateRoutingTable this nextHops curr = .ok (curr', calls)) :
    ∃ derived, derivedRoutes this nextHops = .ok derived ∧ NoDuplicates curr' ∧
      heldRoutes curr' = Memory.round maxNodeNum (heldRoutes curr) derived ∧
      (∀ rt, .delRt rt ∈ calls → rt.route ∈ heldRoutes curr ∧ rt.route ∉ derived) ∧
      ∀ kernel r, r ∈ calls.foldl kernelStep kernel ↔
        (r ∈ kernel ∨ r ∈ derived) ∧ (r ∈ heldRoutes curr → r ∈ derived) := by
  obtain ⟨routes, all, hroutes, hall, rfl, rfl⟩ := updateRoutingTable_calls h
  have hunseen := markRoutesUnseen_same curr
  obtain ⟨hdup1, hheld1, hmarked1⟩ := markAll_spec routes
    (l := routed (filterNextHops nextHops)) (hunseen.noDuplicates hdup)
  rw [hunseen.heldRoutes] at hheld1
  rw [← hall] at hdup1 hheld1 hmarked1
  obtain ⟨hdup2, hheld2, dels, hdels, hmem⟩ := removeMarkedRoutes_spec hdup1
  generalize hderived : (routed (filterNextHops nextHops)).map (fun i => (routes i).route) =
    derived at hheld1 hmarked1
  have hmarked : ∀ r, r ∈ markedRoutes all ↔ r ∈ heldRoutes all ∧ r ∈ derived := by
    intro r
    rw [hmarked1, marked_unseen, and_comm]
    simp
  have hswept : ∀ r, r ∈ dels.map RtEntry.route ↔ r ∈ heldRoutes curr ∧ r ∉ derived := by
    intro r
    rw [hmem, hmarked, hheld1]
    constructor
    · rintro ⟨hin, hnot⟩
      have hr : r ∉ derived := fun hr => hnot ⟨hin, hr⟩
      exact ⟨(Memory.mem_of_mem_enterAll hin).resolve_left hr, hr⟩
    · rintro ⟨hin, hr⟩
      exact ⟨Memory.mem_enterAll_of_mem hin, fun h => hr h.2⟩
  refine ⟨derived, bind_ok_iff.mpr ⟨routes, hroutes, by rw [hderived]; rfl⟩, hdup2, ?_, ?_, ?_⟩
  · rw [hheld2]
    ext r
    rw [hmarked, Memory.mem_round, hheld1]
  · intro rt hrt
    rw [hdels] at hrt
    rcases List.mem_append.mp hrt with hrt | hrt
    · obtain ⟨i, -, hi⟩ := List.mem_map.mp hrt
      cases hi
    · refine (hswept rt.route).mp (List.mem_map_of_mem ?_)
      simpa using hrt
  · intro kernel r
    have hadds : addRoutes (filterNextHops nextHops) routes =
        ((routed (filterNextHops nextHops)).map routes).map .addRt := by
      rw [List.map_map]
      rfl
    rw [List.foldl_append, hdels, kernel_dels, hswept, hadds, kernel_adds, List.map_map]
    change (r ∈ kernel ∨ r ∈ (routed (filterNextHops nextHops)).map fun i => (routes i).route) ∧ _ ↔ _
    rw [hderived, not_and, not_not]

/-! ### Many calls -/

/-- `curr_routes`, the kernel's routes of this daemon, and what the last call asked of the kernel. -/
structure RouteTables where
  currRoutes : CurrRoutes
  kernel : Finset KernelRoute
  calls : List Ioctl

def noRoutes : RouteTables := { currRoutes := fun _ => SimpleRt.zero, kernel := ∅, calls := [] }

/-- One call, with the table that it is given. -/
def tablesStep (e : LocalNode M × HopTable) (s : RouteTables) : Exec RouteTables := do
  let (currRoutes, calls) ← updateRoutingTable e.1 e.2 s.currRoutes
  pure { currRoutes, kernel := calls.foldl kernelStep s.kernel, calls }

/-- Any sequence of calls, from the empty `curr_routes`. -/
abbrev CallRun : List (Trace.Step RouteTables (LocalNode M × HopTable)) → RouteTables → Prop :=
  Trace.Run (fun s => s = noRoutes) fun s e s' => tablesStep e s = .ok s'

/-- The routes that a call derives. -/
def derivedBy (e : LocalNode M × HopTable) : List KernelRoute :=
  (derivedRoutes e.1 e.2).toOption.getD []

theorem deriveRtentry_returns {this : LocalNode M} (hfan : this.node.FanOk) (hop : HopDest) :
    ∃ rt, deriveRtentry this hop = .ok rt := by
  unfold deriveRtentry
  split
  · exact ⟨_, rfl⟩
  · obtain ⟨nb, hnb⟩ := firstIdx_ensures (n := this.node.nNeighbours)
      (p := fun i => do pure (decide ((← read this.node.neighbourIds i) = hop.nextHop)))
      fun m hm => ⟨_, by rw [read_of_lt _ (hfan.lt hm)]; rfl⟩
    rw [hnb, ok_bind]
    cases nb with
    | none => exact ⟨_, rfl⟩
    | some i =>
      obtain ⟨hi, -, -⟩ := firstIdx_some hnb
      dsimp only
      rw [read_of_lt _ (hfan.lt hi)]
      exact ⟨_, rfl⟩

/-- A call returns if the router's count of neighbours is within bounds. -/
theorem tablesStep_returns {e : LocalNode M × HopTable} (hfan : e.1.node.FanOk) (s : RouteTables) :
    ∃ s', tablesStep e s = .ok s' := by
  choose routes hroutes using fun i => deriveRtentry_returns hfan (filterNextHops e.2 i)
  have hderive : deriveRtentries e.1 (filterNextHops e.2) = .ok routes := fill_ok_iff.mpr hroutes
  unfold tablesStep updateRoutingTable
  dsimp only
  rw [hderive]
  exact ⟨_, rfl⟩

theorem tablesStep_spec {e : LocalNode M × HopTable} {s s' : RouteTables}
    (hdup : NoDuplicates s.currRoutes) (h : tablesStep e s = .ok s') :
    derivedRoutes e.1 e.2 = .ok (derivedBy e) ∧ NoDuplicates s'.currRoutes ∧
      heldRoutes s'.currRoutes = Memory.round maxNodeNum (heldRoutes s.currRoutes) (derivedBy e) ∧
      (∀ rt, .delRt rt ∈ s'.calls → rt.route ∉ derivedBy e) ∧
      ∀ r, r ∈ s'.kernel ↔
        (r ∈ s.kernel ∨ r ∈ derivedBy e) ∧ (r ∈ heldRoutes s.currRoutes → r ∈ derivedBy e) := by
  obtain ⟨⟨curr, calls⟩, hcalls, h⟩ := bind_ok_iff.mp h
  cases h
  obtain ⟨derived, hderived, hdup', hheld, hdels, hkernel⟩ := updateRoutingTable_spec hdup hcalls
  have heq : derivedBy e = derived := by
    rw [derivedBy, hderived]
    rfl
  rw [heq]
  exact ⟨hderived, hdup', hheld, fun rt hrt => (hdels rt hrt).2, hkernel s.kernel⟩

theorem noRoutes_noDuplicates : NoDuplicates noRoutes.currRoutes := by
  intro i j hi
  cases hi

/-- A call does not delete a route that it derives, and `curr_routes` holds none twice. -/
def KeepsStaying (st : Trace.Step RouteTables (LocalNode M × HopTable)) : Prop :=
  NoDuplicates st.after.currRoutes ∧ ∃ derived, derivedRoutes st.event.1 st.event.2 = .ok derived ∧
    ∀ rt, rt.route ∈ derived → .delRt rt ∉ st.after.calls

/-- A route that stays is never withdrawn. -/
theorem staying_kept {tr : List (Trace.Step RouteTables (LocalNode M × HopTable))} {s : RouteTables}
    (hrun : CallRun tr s) : Trace.Along (fun _ st => KeepsStaying st) tr := by
  refine (hrun.along (I := fun _ s => NoDuplicates s.currRoutes) ?_ ?_).1
  · rintro s rfl
    exact noRoutes_noDuplicates
  · intro tr s e s' hdup hstep
    obtain ⟨hderived, hdup', -, hdels, -⟩ := tablesStep_spec hdup hstep
    exact ⟨⟨hdup', _, hderived, fun rt hrt hdel => hdels rt hdel hrt⟩, hdup'⟩

/-- The kernel has the routes that the call derives, and no others. -/
def KernelFollows (st : Trace.Step RouteTables (LocalNode M × HopTable)) : Prop :=
  ∃ derived, derivedRoutes st.event.1 st.event.2 = .ok derived ∧ st.after.kernel = derived.toFinset

instance (st : Trace.Step RouteTables (LocalNode M × HopTable)) : Decidable (KernelFollows st) :=
  match h : derivedRoutes st.event.1 st.event.2 with
  | .ok derived => decidable_of_iff (st.after.kernel = derived.toFinset)
      ⟨fun heq => ⟨derived, h, heq⟩, fun ⟨_, h', heq⟩ => by cases h.symm.trans h'; exact heq⟩
  | .error _ => .isFalse fun ⟨_, h', _⟩ => by cases h.symm.trans h'

/-- The routes that a memory of the size of `curr_routes` holds after rounds with the derived routes. -/
def remembered (tr : List (Trace.Step RouteTables (LocalNode M × HopTable))) : Finset KernelRoute :=
  tr.foldl (fun held st => Memory.round maxNodeNum held (derivedBy st.event)) ∅

/-- The routes of the last call. -/
def lastDerived (tr : List (Trace.Step RouteTables (LocalNode M × HopTable))) : List KernelRoute :=
  tr.getLast?.elim [] fun st => derivedBy st.event

/-- A route of the last call that has not been remembered is derived again. -/
def ForgottenStay (pre : List (Trace.Step RouteTables (LocalNode M × HopTable)))
    (st : Trace.Step RouteTables (LocalNode M × HopTable)) : Prop :=
  ∀ r ∈ lastDerived pre, r ∉ remembered pre → r ∈ derivedBy st.event

instance (pre : List (Trace.Step RouteTables (LocalNode M × HopTable)))
    (st : Trace.Step RouteTables (LocalNode M × HopTable)) : Decidable (ForgottenStay pre st) := by
  unfold ForgottenStay; infer_instance

/-- Calls return, and the kernel's table follows `next_hops` at every call exactly when no route is
    dropped from the table that `curr_routes` had no room for. -/
theorem kernelFollows_iff :
    (∀ (e : LocalNode M × HopTable) (s : RouteTables), e.1.node.FanOk →
      ∃ s', tablesStep e s = .ok s') ∧
    ∀ (tr : List (Trace.Step RouteTables (LocalNode M × HopTable))) (s : RouteTables), CallRun tr s →
      (Trace.Along (fun _ st => KernelFollows st) tr ↔ Trace.Along ForgottenStay tr) := by
  refine ⟨fun e s hfan => tablesStep_returns hfan s, fun tr s hrun => ?_⟩
  refine hrun.along_iff (I := fun tr s => NoDuplicates s.currRoutes ∧
    heldRoutes s.currRoutes = remembered tr ∧ s.kernel = (lastDerived tr).toFinset) ?_ ?_
  · rintro s rfl
    refine ⟨noRoutes_noDuplicates, ?_, rfl⟩
    refine Finset.eq_empty_of_forall_notMem fun r hr => ?_
    obtain ⟨i, hi, -⟩ := mem_held.mp hr
    cases hi
  · rintro tr ⟨s, e, s'⟩ ⟨hdup, hheld, hkernel⟩ hstep
    obtain ⟨hderived, hdup', hheld', -, hkernel'⟩ := tablesStep_spec hdup hstep
    have hfollows : KernelFollows { before := s, event := e, after := s' } ↔
        s'.kernel = (derivedBy e).toFinset := by
      constructor
      · rintro ⟨derived, h, heq⟩
        cases hderived.symm.trans h
        exact heq
      · exact fun heq => ⟨_, hderived, heq⟩
    have hiff : s'.kernel = (derivedBy e).toFinset ↔
        ForgottenStay tr { before := s, event := e, after := s' } := by
      rw [Finset.ext_iff]
      constructor
      · intro h r hr hnew
        rw [← List.mem_toFinset, ← h r, hkernel', hkernel, List.mem_toFinset, hheld]
        exact ⟨Or.inl hr, fun hin => absurd hin hnew⟩
      · intro h r
        rw [hkernel', hkernel, List.mem_toFinset, List.mem_toFinset, hheld]
        constructor
        · rintro ⟨hr | hr, hstale⟩
          · by_cases hin : r ∈ remembered tr
            · exact hstale hin
            · exact h r hr hin
          · exact hr
        · exact fun hr => ⟨Or.inr hr, fun _ => hr⟩
    refine ⟨hfollows.trans hiff, fun hq => ⟨hdup', ?_, ?_⟩⟩
    · rw [hheld', hheld, remembered, remembered, List.foldl_append]
      rfl
    · rw [hiff.mpr hq, lastDerived, List.getLast?_concat]
      rfl

end Calls

/-! ### Routes that all change -/

/-- A router with neighbour 2. -/
def oneGateway : LocalNode ℚ :=
  { zeroLocalNode with
    node :=
      { zeroNode with
        nNeighbours := 1
        neighbourIds := fun _ => 2
        neighbourIps := fun _ => inetAddr 10 0 0 2 } }

/-- A table with routes of this metric to `n` subnets, all through neighbour 2. -/
def manyRoutes (n : ℕ) (metric : ℤ) : HopTable := fun i =>
  if (i : ℕ) < n then
    { nextHop := 2, destIp := inetAddr 10 0 i 0, metric, nextHopState := .linkUp }
  else { nextHop := -1, destIp := 0, metric := 0, nextHopState := .linkDown }

/-- The routes change their metric, and then the network is unreachable. -/
def lostNetwork (n : ℕ) : List (LocalNode ℚ × HopTable) :=
  [(oneGateway, manyRoutes n 1), (oneGateway, manyRoutes n 2), (oneGateway, manyRoutes 0 0)]

theorem exists_callRun (es : List (LocalNode ℚ × HopTable))
    {P : List (Trace.Step RouteTables (LocalNode ℚ × HopTable)) → Prop} [DecidablePred P]
    (h : (Trace.follow (fun _ _ => True) tablesStep es [] noRoutes).any (fun tr => P tr) = true) :
    ∃ tr s, CallRun tr s ∧ tr.map Trace.Step.event = es ∧ P tr := by
  have hfollow : ∃ tr s, Trace.Run (fun s => s = noRoutes)
      (fun s e s' => True ∧ tablesStep e s = .ok s') tr s ∧ tr.map Trace.Step.event = es ∧ P tr :=
    Trace.exists_follow (by rfl) es h
  obtain ⟨tr, s, hrun, hevents, hP⟩ := hfollow
  exact ⟨tr, s, hrun.mono fun _ _ _ h => h.2, hevents, hP⟩

/-- `curr_routes` has room for six routes next to six others. -/
theorem kernelFollows_six : ∃ tr s, CallRun tr s ∧ tr.map Trace.Step.event = lostNetwork 6 ∧
    Trace.Along (fun _ st => KernelFollows st) tr := by
  obtain ⟨tr, s, hrun, hevents, hstay⟩ := exists_callRun (lostNetwork 6)
    (P := Trace.Along ForgottenStay) (by decide +kernel)
  exact ⟨tr, s, hrun, hevents, (kernelFollows_iff.2 tr s hrun).mpr hstay⟩

theorem staying_kept_six : ∃ tr s, CallRun tr s ∧ tr.map Trace.Step.event = lostNetwork 6 ∧
    Trace.Along (fun _ st => KeepsStaying st) tr := by
  obtain ⟨tr, s, hrun, hevents, -⟩ := exists_callRun (lostNetwork 6) (P := fun _ => True)
    (by decide +kernel)
  exact ⟨tr, s, hrun, hevents, staying_kept hrun⟩

/-- Each entry without a route says so, and each other goes through a neighbour. -/
def ThroughNeighbours (e : LocalNode ℚ × HopTable) : Prop :=
  ∀ i, (e.2 i).nextHop = -1 ∨ ∃ k : Fin maxNodeFan, ((k : ℕ) : ℤ) < e.1.node.nNeighbours ∧
    e.1.node.neighbourIds k = (e.2 i).nextHop

instance (e : LocalNode ℚ × HopTable) : Decidable (ThroughNeighbours e) := by
  unfold ThroughNeighbours; infer_instance

/-- It has no room for two of seven routes next to seven others, and the kernel keeps them. -/
theorem seven_stay_behind :
    ¬∀ (tr : List (Trace.Step RouteTables (LocalNode ℚ × HopTable))) (s : RouteTables), CallRun tr s →
      (∀ st ∈ tr, ThroughNeighbours st.event) → Trace.Along (fun _ st => KernelFollows st) tr := by
  intro h
  obtain ⟨tr, s, hrun, -, hneighbours, hbad⟩ := exists_callRun (lostNetwork 7)
    (P := fun tr => (∀ st ∈ tr, ThroughNeighbours st.event) ∧
      ¬Trace.Along (fun _ st => KernelFollows st) tr) (by decide +kernel)
  exact hbad (h tr s hrun hneighbours)

end Dtlsr
