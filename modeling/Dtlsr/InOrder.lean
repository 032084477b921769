import Dtlsr.MergeOrder
import Dtlsr.Reached

/-!
    An origin and a receiver, each running its own driver, with the origin's LSAs delivered in the
    order in which they were sent. The receiver's entry for the origin is the register of
    `Lib/Register`, which follows the stream as long as two changes of content never carry the same
    reading of the origin's clock. -/

namespace Dtlsr
open Checked Register

/-! ### The receiver -/

section Receiver
variable {M : Type}

/-- The LSA of node `k` that an event brings, on its own or within a network LSA. -/
def lsaBrought (k : Fin maxNodeNum) : Active M → Option (Node M)
  | .routerLsa lsa _ => if lsa.id = (k : ℕ) + 1 then some lsa else none
  | .networkLsa others => if (others k).state = .nodeSeen then some (others k) else none
  | _ => none

/-- The LSAs of node `k` that a run receives, in order. -/
def delivered (k : Fin maxNodeNum) (tr : List (Trace.Step (Daemon M) (Event M))) : List (Node M) :=
  tr.filterMap fun st => lsaBrought k st.event.active

theorem delivered_eq (k : Fin maxNodeNum) (tr : List (Trace.Step (Daemon M) (Event M))) :
    delivered k tr = (tr.map Trace.Step.event).filterMap fun ev => lsaBrought k ev.active := by
  unfold delivered
  rw [List.filterMap_map]
  rfl

theorem delivered_snoc (k : Fin maxNodeNum) (tr : List (Trace.Step (Daemon M) (Event M)))
    (st : Trace.Step (Daemon M) (Event M)) :
    delivered k (tr ++ [st]) = delivered k tr ++ (lsaBrought k st.event.active).toList := by
  unfold delivered
  rw [List.filterMap_append]
  cases h : lsaBrought k st.event.active <;> simp [h]

variable [Field M] [LinearOrder M] [FloorRing M] [Libm M] {R : Setup M} {k : Fin maxNodeNum}

/-- An iteration merges the LSA that it receives, and otherwise leaves the entry of `k` untouched. -/
theorem Steps.receives {ev : Event M} {s s' : Daemon M} (hk : s.this.node.id ≠ (k : ℕ) + 1)
    (h : Steps R s ev s') :
    (lsaBrought k ev.active = none → Untouched (s.graph k) (s'.graph k)) ∧
      ∀ r ∈ lsaBrought k ev.active, LsaOf k r → r.InBounds →
        s'.graph k = mergedEntry (s.graph k) r := by
  have hroutes := h.routes
  cases ha : ev.active with
  | routerLsa lsa source =>
    rw [ha] at hroutes
    obtain ⟨⟨u, hm⟩, -⟩ := hroutes
    by_cases hid : lsa.id = (k : ℕ) + 1
    · refine ⟨fun hn => by simp [lsaBrought, hid] at hn, fun r hr hlsa _ => ?_⟩
      obtain rfl : lsa = r := by simpa [lsaBrought, hid] using hr
      exact mergeInNode_entry hlsa hm
    · exact ⟨fun _ => mergeInNode_untouched hid hm, fun r hr => by simp [lsaBrought, hid] at hr⟩
  | networkLsa others =>
    rw [ha] at hroutes
    obtain ⟨⟨u, hm⟩, -⟩ := hroutes
    by_cases hs : (others k).state = .nodeSeen
    · refine ⟨fun hn => by simp [lsaBrought, hs] at hn, fun r hr _ hb => ?_⟩
      obtain rfl : others k = r := by simpa [lsaBrought, hs] using hr
      exact mergeInGraph_entry hb.fan hm
    · exact ⟨fun _ => mergeInGraph_untouched hs hm, fun r hr => by simp [lsaBrought, hs] at hr⟩
  | _ =>
    exact ⟨fun _ => h.others (by rw [ha]; exact id) k hk, fun r hr => by cases hr⟩

/-- The entry `n` stores what the register holds. -/
def Stores (l : List (Node M)) (n : Node M) : Prop :=
  (held SameContent Node.timestamp l).elim (n.state ≠ .nodeSeen) fun r => n = r

/-- In every run the receiver's entry of `k` is the register over the LSAs received. -/
theorem Run.stores {tr : List (Trace.Step (Daemon M) (Event M))} {s : Daemon M}
    (hk : R.id ≠ (k : ℕ) + 1) (hrun : Run R tr s) :
    LsasOf k (delivered k tr) → Stores (delivered k tr) (s.graph k) := by
  refine hrun.invariant (I := fun tr s => LsasOf k (delivered k tr) →
    Stores (delivered k tr) (s.graph k)) (fun s h0 _ => startUp_untouched hk h0) ?_
  intro tr s ev s' hr ih hstep hgood
  have hid : s.this.node.id ≠ (k : ℕ) + 1 := by rw [(Run.linked hr).id]; exact hk
  obtain ⟨hnone, hsome⟩ := hstep.receives hid
  rw [delivered_snoc] at hgood ⊢
  have hprev := ih fun r hr => hgood r (List.mem_append_left _ hr)
  have hlsas := held_lsaOf (k := k) (l := delivered k tr)
    fun r hr => hgood r (List.mem_append_left _ hr)
  cases hb : lsaBrought k ev.active with
  | none =>
    have hunt := hnone hb
    rw [Option.toList_none, List.append_nil]
    unfold Stores at hprev ⊢
    cases hheld : held SameContent Node.timestamp (delivered k tr) with
    | none => rw [hheld] at hprev; exact hunt.unseen hprev
    | some r =>
      rw [hheld] at hprev
      have heq : s.graph k = r := hprev
      exact (hunt.seen (by rw [heq]; exact (hlsas r hheld).state)).trans heq
  | some x =>
    rw [hb] at hgood
    obtain ⟨hx, hbounds⟩ := hgood x (List.mem_append_right _ (by simp))
    rw [Option.toList_some, Stores, held_snoc, Option.elim_some, hsome x hb hx hbounds]
    unfold Stores at hprev
    cases hheld : held SameContent Node.timestamp (delivered k tr) with
    | none => rw [hheld] at hprev; exact (mergedEntry_lsa hx).1 hprev
    | some r =>
      rw [hheld] at hprev
      have heq : s.graph k = r := hprev
      rw [heq]
      exact (mergedEntry_lsa hx).2 (hlsas r hheld)

/-- After each delivery the entry of `k` has the content of the LSA just delivered. -/
def KeepsUp (k : Fin maxNodeNum) (tr : List (Trace.Step (Daemon M) (Event M))) : Prop :=
  Trace.Along (fun _ st => ∀ r ∈ lsaBrought k st.event.active,
    SameContent (st.after.graph k) r) tr

instance (tr : List (Trace.Step (Daemon M) (Event M))) : Decidable (KeepsUp k tr) := by
  unfold KeepsUp; infer_instance

theorem Run.keepsUp_iff {tr : List (Trace.Step (Daemon M) (Event M))} {s : Daemon M}
    (hk : R.id ≠ (k : ℕ) + 1) (hrun : Run R tr s) (hgood : LsasOf k (delivered k tr)) :
    KeepsUp k tr ↔ Follows SameContent Node.timestamp (delivered k tr) := by
  revert hgood
  refine hrun.invariant (I := fun tr _ => LsasOf k (delivered k tr) →
    (KeepsUp k tr ↔ Follows SameContent Node.timestamp (delivered k tr))) ?_ ?_
  · exact fun s _ _ => ⟨fun _ => follows_nil, fun _ => Trace.along_nil⟩
  · intro tr s ev s' hr ih hstep hgood
    have hstores := Run.stores hk (hr.step hstep) hgood
    rw [delivered_snoc] at hgood hstores ⊢
    unfold KeepsUp at ih ⊢
    rw [Trace.along_snoc, ih fun r hr => hgood r (List.mem_append_left _ hr)]
    dsimp only at hstores hgood ⊢
    cases hb : lsaBrought k ev.active with
    | none => simp
    | some x =>
      rw [hb, Option.toList_some] at hstores
      rw [Option.toList_some, follows_snoc]
      refine and_congr_right fun _ => ?_
      unfold Stores at hstores
      rw [held_snoc] at hstores ⊢
      have heq : s'.graph k = _ := hstores
      simp [heq]

end Receiver

/-! ### The origin -/

section Origin
variable {M : Type} [Field M] [LinearOrder M] [FloorRing M] [Libm M] {S : Setup M}
  {k : Fin maxNodeNum}

/-- What a run has sent as its own: records of node `k`, stamped with readings of the clock in the order
    in which these were taken. -/
structure Sends (S : Setup M) (k : Fin maxNodeNum) (s : Daemon M) : Prop where
  lsas : LsasOf k s.originated
  stamps : ∀ r ∈ s.originated, ∃ n < s.ticks, r.timestamp = S.clock n
  sorted : Monotone S.clock → s.originated.Pairwise fun a b => a.timestamp ≤ b.timestamp

theorem Run.sends {tr : List (Trace.Step (Daemon M) (Event M))} {s : Daemon M}
    (hk : S.id = (k : ℕ) + 1) (hrun : Run S tr s) : Sends S k s := by
  refine hrun.invariant (I := fun _ s => Sends S k s) ?_ ?_
  · intro s h0
    have hnil := (startUp_started h0).originated
    refine ⟨?_, ?_, ?_⟩ <;> rw [hnil]
    · exact fun r hr => absurd hr List.not_mem_nil
    · exact fun r hr => absurd hr List.not_mem_nil
    · exact fun _ => .nil
  · intro tr s ev s' hr hinv hstep
    obtain ⟨hticks, horig | ⟨t, now, hlinks, hnow, hlt, horig⟩⟩ := hstep.originated
    · refine ⟨by rw [horig]; exact hinv.lsas, fun r hr => ?_, by rw [horig]; exact hinv.sorted⟩
      obtain ⟨n, hn, hstamp⟩ := hinv.stamps r (horig ▸ hr)
      exact ⟨n, hn.trans_le hticks, hstamp⟩
    · have ht : Linked S t := ((Run.linked hr).linkEffect ev.active).of_sameLinks hlinks
      have hm := ht.of_sameLinks (localNodeUpdateMetrics_sameLinks (b := S.build) (p := S.hist) t
        (S.clock now))
      refine ⟨fun r hr => ?_, fun r hr => ?_, fun hclock => ?_⟩
      · rw [horig] at hr
        rcases List.mem_append.mp hr with hr | hr
        · exact hinv.lsas r hr
        · obtain rfl := List.mem_singleton.mp hr
          exact ⟨⟨hm.seen, hm.id.trans hk⟩, hm.bounds⟩
      · rw [horig] at hr
        rcases List.mem_append.mp hr with hr | hr
        · obtain ⟨n, hn, hstamp⟩ := hinv.stamps r hr
          exact ⟨n, hn.trans_le hticks, hstamp⟩
        · obtain rfl := List.mem_singleton.mp hr
          exact ⟨now, hlt, rfl⟩
      · rw [horig, List.pairwise_append]
        refine ⟨hinv.sorted hclock, List.pairwise_singleton _ _, fun a ha b hb => ?_⟩
        obtain rfl := List.mem_singleton.mp hb
        obtain ⟨n, hn, hstamp⟩ := hinv.stamps a ha
        rw [hstamp, localNodeUpdateMetrics_timestamp]
        exact hclock (hn.le.trans hnow)

/-- The receiver keeps up with the origin exactly when, among the LSAs delivered, no two changes of
    content in a row carry the same reading of the clock. -/
theorem in_order_keepsUp_iff {R : Setup M} (hk : S.id = (k : ℕ) + 1) (hne : R.id ≠ S.id)
    (hclock : Monotone S.clock) {trS trR : List (Trace.Step (Daemon M) (Event M))}
    {s r : Daemon M} (hS : Run S trS s) (hR : Run R trR r)
    (hdel : delivered k trR <+: s.originated) :
    KeepsUp k trR ↔ ((delivered k trR).destutter fun a b => ¬SameContent a b).IsChain
      fun a b => a.timestamp ≠ b.timestamp := by
  have hsends := hS.sends hk
  have hgood : LsasOf k (delivered k trR) := fun x hx => hsends.lsas x (hdel.subset hx)
  have hsorted := (hsends.sorted hclock).sublist hdel.sublist
  rw [Run.keepsUp_iff (by rw [← hk]; exact hne) hR hgood, follows_iff sameContent_equivalence,
    isChain_lt_iff_ne (hsorted.sublist (List.destutter_sublist _ _))]

end Origin

/-! ### Router 1 sends, router 2 receives -/

/-- Router 2 with its link to router 1. -/
def routerTwo : Setup ℚ :=
  { twoLinks .lsr id (pure false) with
    id := 2
    links :=
      [{ interface := "eth0"
         srcAddr := inetAddr 10 0 0 2
         dstAddr := inetAddr 10 0 0 1
         dstId := 1 }] }

/-- Both links of router 1 come up. -/
def bothRise : List (Event ℚ) :=
  [quietly (.heartbeat (inetAddr 10 0 0 2)), quietly (.heartbeat (inetAddr 10 0 1 3))]

/-- The LSAs that router 1 sends meanwhile. -/
def sentByOne (clock : ℕ → ℕ) : List (Node ℚ) :=
  ((runEvents (twoLinks .lsr clock (pure false)) bothRise).bind List.getLast?).elim []
    fun st => st.after.originated

/-- They reach router 2 in order. -/
def receivedByTwo (clock : ℕ → ℕ) : List (Event ℚ) :=
  (sentByOne clock).map fun lsa => quietly (.routerLsa lsa (inetAddr 10 0 0 1))

/-- What router 2 receives is what router 1 has sent, in a run of each. -/
theorem exists_run_of_both (clock : ℕ → ℕ) {P : List (Trace.Step (Daemon ℚ) (Event ℚ)) → Prop}
    [DecidablePred P] (hone : (runEvents (twoLinks .lsr clock (pure false)) bothRise).isSome = true)
    (htwo : (runEvents routerTwo (receivedByTwo clock)).any (fun tr => P tr) = true) :
    ∃ trS s trR r, Run (twoLinks .lsr clock (pure false)) trS s ∧ Run routerTwo trR r ∧
      delivered 0 trR <+: s.originated ∧ P trR := by
  obtain ⟨trS, hevs⟩ := Option.isSome_iff_exists.mp hone
  obtain ⟨⟨s, hS⟩, hevents⟩ := runEvents_run hevs
  obtain ⟨trR, r, hR, hreceived, hP⟩ := exists_run _ htwo
  refine ⟨trS, s, trR, r, hS, hR, ?_, hP⟩
  have hsent : s.originated = sentByOne clock := by
    rw [sentByOne, hevs, Option.bind_some]
    rcases List.eq_nil_or_concat trS with rfl | ⟨pre, st, rfl⟩
    · cases hevents
    · rw [List.concat_eq_append] at hS ⊢
      rw [hS.last, List.getLast?_concat, Option.elim_some]
  have hlsas := (hS.sends (k := 0) rfl).lsas
  rw [hsent] at hlsas ⊢
  have hall : delivered 0 trR = sentByOne clock := by
    rw [delivered_eq, hreceived, receivedByTwo, List.filterMap_map]
    refine (List.filterMap_congr fun x hx => ?_).trans List.filterMap_some
    exact if_pos (hlsas x hx).1.id
  rw [hall]

/-- On a clock that moves between the two changes router 2 keeps up. -/
theorem in_order_keepsUp_moving : ∃ trS s trR r, Run (twoLinks .lsr id (pure false)) trS s ∧
    Run routerTwo trR r ∧ delivered 0 trR <+: s.originated ∧ (delivered 0 trR).length = 2 ∧
    KeepsUp 0 trR := by
  obtain ⟨trS, s, trR, r, hS, hR, hdel, htwo, hchain⟩ := exists_run_of_both id
    (P := fun tr => (delivered 0 tr).length = 2 ∧
      ((delivered 0 tr).destutter fun a b => ¬SameContent a b).IsChain
        fun a b => a.timestamp ≠ b.timestamp) (by decide +kernel) (by decide +kernel)
  exact ⟨trS, s, trR, r, hS, hR, hdel, htwo,
    (in_order_keepsUp_iff rfl (by decide) monotone_id hS hR hdel).mpr hchain⟩

/-- Both links come up at one reading of the clock: router 2 never learns of the second. -/
theorem in_order_misses_burst : ¬∀ (S R : Setup ℚ) (k : Fin maxNodeNum)
    (trS trR : List (Trace.Step (Daemon ℚ) (Event ℚ))) (s r : Daemon ℚ), S.id = (k : ℕ) + 1 →
      R.id ≠ S.id → Monotone S.clock → Run S trS s → Run R trR r →
      delivered k trR <+: s.originated → KeepsUp k trR := by
  intro h
  obtain ⟨trS, s, trR, r, hS, hR, hdel, hmiss⟩ := exists_run_of_both (fun _ => 0)
    (P := fun tr => ¬KeepsUp 0 tr) (by decide +kernel) (by decide +kernel)
  exact hmiss (h _ _ 0 trS trR s r rfl (by decide) monotone_const hS hR hdel)

end Dtlsr
