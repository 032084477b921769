import Mathlib.Algebra.Order.Monoid.Defs
import Mathlib.Algebra.Order.Group.Nat
import Mathlib.Data.Fintype.EquivFin
import Mathlib.Data.List.Chain
import Mathlib.Data.Set.Insert
import Mathlib.Tactic.Abel

/-!
    Walks in a weighted directed graph, and the labels of Dijkstra's algorithm. The graph is a relation
    `E u w v`: an edge of weight `w` leads from `u` to `v`; parallel edges are allowed. `Labels` is the
    invariant of the labelling: tentative distances, a predecessor for each labelled node, the settled
    nodes and the queue. It is kept when the nearest queued node is settled (`Labels.settle`) and when
    an edge out of it is relaxed (`Labels.relax`), and once every edge is relaxed the labels are
    distances (`Labels.shortest`, `Labels.lt_top_iff`). -/

namespace Walks

variable {V α : Type} [AddCommMonoid α]

section Walk
variable (E : V → α → V → Prop)

/-- `Walk E u l v c`: the nodes in `l` lead from `u` to `v` along edges of total weight `c`. -/
inductive Walk : V → List V → V → α → Prop where
  | nil (v : V) : Walk v [v] v 0
  | cons {u v d : V} {w c : α} {l : List V} : E u w v → Walk v l d c → Walk u (u :: l) d (w + c)

variable {E} {u v d : V} {l : List V} {c w : α}

theorem Walk.snoc (h : Walk E u l v c) (e : E v w d) : Walk E u (l ++ [d]) d (c + w) := by
  induction h with
  | nil v =>
    have := Walk.cons e (Walk.nil d)
    rw [add_zero] at this
    rwa [zero_add]
  | cons e' _ ih =>
    have := Walk.cons e' (ih e)
    rwa [← add_assoc] at this

theorem Walk.head (h : Walk E u l v c) : ∃ t, l = u :: t := by
  cases h with
  | nil => exact ⟨[], rfl⟩
  | cons _ _ => exact ⟨_, rfl⟩

theorem Walk.cost_le [PartialOrder α] [IsOrderedAddMonoid α] {B : α}
    (hB : ∀ u w v, E u w v → w ≤ B) (h : Walk E u l v c) : c + B ≤ l.length • B := by
  induction h with
  | nil v => rw [zero_add, List.length_singleton, one_nsmul]
  | @cons u v d w c l e _ ih =>
    calc w + c + B = w + (c + B) := add_assoc ..
      _ ≤ B + l.length • B := add_le_add (hB u w v e) ih
      _ = (u :: l).length • B := by rw [List.length_cons, succ_nsmul']

theorem Walk.nonneg [PartialOrder α] [IsOrderedAddMonoid α] (h0 : ∀ u w v, E u w v → 0 ≤ w)
    (h : Walk E u l v c) : 0 ≤ c := by
  induction h with
  | nil => exact le_rfl
  | cons e _ ih => exact add_nonneg (h0 _ _ _ e) ih

theorem Walk.end_of_singleton (h : Walk E u [v] d c) : u = v ∧ d = v ∧ c = 0 := by
  cases h with
  | nil => exact ⟨rfl, rfl, rfl⟩
  | cons _ h => cases h

/-- The first edge of a walk. -/
theorem Walk.uncons {x y : V} (h : Walk E u (x :: y :: l) d c) :
    ∃ w c', E u w y ∧ Walk E y (y :: l) d c' ∧ c = w + c' := by
  cases h with
  | cons e h =>
    obtain ⟨t, ht⟩ := h.head
    obtain rfl := (List.cons.inj ht).1
    exact ⟨_, _, e, h, rfl⟩

/-- The last edge of a walk. -/
theorem Walk.unsnoc {p : V} : ∀ {pre : List V} {u : V} {c : α}, Walk E u (pre ++ [p, d]) d c →
    ∃ c' w, Walk E u (pre ++ [p]) p c' ∧ E p w d ∧ c = c' + w := by
  intro pre
  induction pre with
  | nil =>
    intro u c h
    obtain ⟨t, ht⟩ := h.head
    obtain rfl := (List.cons.inj ht).1
    obtain ⟨w, c', e, h', rfl⟩ := Walk.uncons h
    obtain ⟨-, -, rfl⟩ := h'.end_of_singleton
    exact ⟨0, w, .nil p, e, by rw [add_zero, zero_add]⟩
  | cons x pre ih =>
    intro u c h
    obtain ⟨t, ht⟩ := h.head
    obtain rfl := (List.cons.inj ht).1
    obtain ⟨y, rest, hrest⟩ : ∃ y rest, pre ++ [p, d] = y :: rest := by
      cases pre with
      | nil => exact ⟨p, [d], rfl⟩
      | cons y pre => exact ⟨y, pre ++ [p, d], rfl⟩
    rw [List.cons_append, hrest] at h
    obtain ⟨w, c', e, h', rfl⟩ := Walk.uncons h
    rw [← hrest] at h'
    obtain ⟨c'', w', h'', e', rfl⟩ := ih h'
    exact ⟨w + c'', w', .cons e h'', e', (add_assoc ..).symm⟩

/-- A minimum-weight walk of total `c` from `s` to `v`, through `l`. -/
structure Shortest (E : V → α → V → Prop) [LE α] (s : V) (l : List V) (v : V) (c : α) : Prop where
  walk : Walk E s l v c
  nodup : l.Nodup
  least : ∀ l' c', Walk E s l' v c' → c ≤ c'

/-- A shortest walk from its second node on is a shortest walk. -/
theorem Shortest.tail [PartialOrder α] [IsOrderedCancelAddMonoid α] {s x : V}
    (h : Shortest E s (s :: x :: l) d c) :
    ∃ w c', E s w x ∧ Shortest E x (x :: l) d c' ∧ c = w + c' := by
  obtain ⟨w, c', e, hw, rfl⟩ := h.walk.uncons
  refine ⟨w, c', e, ⟨hw, (List.nodup_cons.mp h.nodup).2, fun l' c'' hw' => ?_⟩, rfl⟩
  exact le_of_add_le_add_left (h.least _ _ (.cons e hw'))

/-- A list of predecessors from the source `s`, which has none, to `v`. -/
inductive Chain (pred : V → Option V) (s : V) : List V → V → Prop where
  | root : pred s = none → Chain pred s [s] s
  | snoc {u v : V} {l : List V} : Chain pred s l u → pred v = some u → Chain pred s (l ++ [v]) v

theorem Chain.mem {pred : V → Option V} {s v : V} {l : List V} (h : Chain pred s l v) : v ∈ l := by
  cases h <;> simp

theorem Chain.concat {pred : V → Option V} {s v : V} {l : List V} (h : Chain pred s l v) :
    ∃ pre, l = pre ++ [v] := by
  cases h with
  | root _ => exact ⟨[], rfl⟩
  | @snoc _ _ pre _ _ => exact ⟨pre, rfl⟩

theorem Chain.head {pred : V → Option V} {s v : V} {l : List V} (h : Chain pred s l v) :
    l.head? = some s := by
  induction h with
  | root _ => rfl
  | snoc _ _ ih => rw [List.head?_append, ih, Option.some_or]

/-- Each node of a chain is the predecessor of the next one. -/
theorem Chain.isChain {pred : V → Option V} {s v : V} {l : List V} (h : Chain pred s l v) :
    l.IsChain fun x y => pred y = some x := by
  induction h with
  | root _ => exact List.isChain_singleton _
  | snoc hch hp ih =>
    obtain ⟨pre, rfl⟩ := hch.concat
    rw [List.append_assoc, List.singleton_append, List.isChain_append_cons_cons]
    exact ⟨ih, hp, List.isChain_singleton _⟩

/-- A node has one chain. -/
theorem Chain.unique {pred : V → Option V} {s v : V} {l l' : List V} (h : Chain pred s l v)
    (h' : Chain pred s l' v) : l = l' := by
  induction h generalizing l' with
  | root h0 =>
    cases h' with
    | root _ => rfl
    | snoc _ hp => rw [h0] at hp; cases hp
  | @snoc u v l _ hp ih =>
    cases h' with
    | root h0 => rw [h0] at hp; cases hp
    | snoc hch hp' =>
      obtain rfl := Option.some.inj (hp.symm.trans hp')
      rw [ih hch]

theorem Chain.init {pred : V → Option V} {s u v : V} {l : List V} (h : Chain pred s l v)
    (hp : pred v = some u) : ∃ l', Chain pred s l' u ∧ l = l' ++ [v] := by
  cases h with
  | root h0 => rw [h0] at hp; cases hp
  | snoc hch hp' =>
    obtain rfl := Option.some.inj (hp.symm.trans hp')
    exact ⟨_, hch, rfl⟩

/-- Two nodes are not each other's predecessors. -/
theorem Chain.pred_asymm {pred : V → Option V} {s u v : V} {l : List V} (h : Chain pred s l v)
    (hp : pred v = some u) : pred u ≠ some v := by
  intro hq
  obtain ⟨l', hch', rfl⟩ := h.init hp
  obtain ⟨l'', hch'', rfl⟩ := hch'.init hq
  have hlen := congrArg List.length (h.unique hch'')
  simp only [List.length_append, List.length_singleton] at hlen
  omega

/-- A chain does not see a change of labels outside it. -/
theorem Chain.congr {pred pred' : V → Option V} {s v : V} {l : List V} (h : Chain pred s l v)
    (heq : ∀ x ∈ l, pred' x = pred x) : Chain pred' s l v := by
  induction h with
  | root h0 => exact Chain.root ((heq s (by simp)).trans h0)
  | snoc _ hp ih =>
    refine Chain.snoc (ih fun x hx => heq x (List.mem_append_left _ hx)) ?_
    exact (heq _ (by simp)).trans hp

end Walk

/-! ### Dijkstra's labels -/

section Labels
variable [LinearOrder α]

/-- The invariant of the labelling from `s`. `top` is the label of a node not reached yet; the edges
    out of the nodes in `skip` may not all be relaxed. -/
structure Labels (E : V → α → V → Prop) (top : α) (s : V) (dist : V → α) (pred : V → Option V)
    (done queue skip : Set V) : Prop where
  nonneg : ∀ v, 0 ≤ dist v
  le_top : ∀ v, dist v ≤ top
  src_dist : dist s = 0
  src_pred : pred s = none
  fresh : ∀ v, pred v = none → v = s ∨ dist v = top
  step : ∀ v u, pred v = some u → (∃ w, E u w v ∧ dist v = dist u + w) ∧ dist v < top
  chain : ∀ v, v = s ∨ (pred v).isSome →
    ∃ l, Chain pred s l v ∧ l.Nodup ∧ ∀ x ∈ l, x = v ∨ x ∈ done
  front : ∀ u ∈ done, ∀ v ∈ queue, dist u ≤ dist v
  disj : ∀ u ∈ done, u ∉ queue
  relaxed : ∀ u ∈ done, u ∉ skip → ∀ w v, E u w v → dist v ≤ dist u + w

variable {E : V → α → V → Prop} {top : α} {s : V} {dist : V → α} {pred : V → Option V}
  {done queue skip : Set V}

/-- The labels before the first step. -/
theorem Labels.init [DecidableEq V] (htop : 0 ≤ top) (queue : Set V) :
    Labels E top s (fun v => if v = s then 0 else top) (fun _ => none) ∅ queue ∅ where
  nonneg v := by
    by_cases h : v = s
    · rw [if_pos h]
    · rw [if_neg h]; exact htop
  le_top v := by
    by_cases h : v = s
    · rw [if_pos h]; exact htop
    · rw [if_neg h]
  src_dist := if_pos rfl
  src_pred := rfl
  fresh v _ := by
    by_cases h : v = s
    · exact Or.inl h
    · exact Or.inr (if_neg h)
  step v u h := by cases h
  chain v h := by
    obtain rfl : v = s := h.resolve_right (by simp)
    exact ⟨[v], Chain.root rfl, by simp, fun x hx => Or.inl (by simpa using hx)⟩
  front u hu := absurd hu (Set.notMem_empty u)
  disj u hu := absurd hu (Set.notMem_empty u)
  relaxed u hu := absurd hu (Set.notMem_empty u)

/-- Settling a nearest queued node. -/
theorem Labels.settle (h : Labels E top s dist pred done queue ∅) {u : V} (hu : u ∈ queue)
    (hmin : ∀ v ∈ queue, dist u ≤ dist v) {queue' : Set V} (hsub : queue' ⊆ queue)
    (hout : u ∉ queue') : Labels E top s dist pred (insert u done) queue' {u} where
  nonneg := h.nonneg
  le_top := h.le_top
  src_dist := h.src_dist
  src_pred := h.src_pred
  fresh := h.fresh
  step := h.step
  chain v hv := by
    obtain ⟨l, hl, hnd, hdone⟩ := h.chain v hv
    exact ⟨l, hl, hnd, fun x hx => (hdone x hx).imp_right (Set.mem_insert_of_mem u)⟩
  front x hx v hv := by
    rcases Set.mem_insert_iff.mp hx with rfl | hx
    · exact hmin v (hsub hv)
    · exact h.front x hx v (hsub hv)
  disj x hx := by
    rcases Set.mem_insert_iff.mp hx with rfl | hx
    · exact hout
    · exact fun hq => h.disj x hx (hsub hq)
  relaxed x hx hskip w v e := by
    rcases Set.mem_insert_iff.mp hx with rfl | hx
    · exact absurd rfl hskip
    · exact h.relaxed x hx (Set.notMem_empty x) w v e

/-- Once the edges out of the settled node are relaxed, nothing is skipped. -/
theorem Labels.close {u : V} (h : Labels E top s dist pred done queue {u})
    (hrel : ∀ w v, E u w v → dist v ≤ dist u + w) : Labels E top s dist pred done queue ∅ :=
  { h with
    relaxed := fun x hx _ w v e => by
      by_cases hxu : x = u
      · subst hxu; exact hrel w v e
      · exact h.relaxed x hx hxu w v e }

theorem Labels.chain_walk (h : Labels E top s dist pred done queue skip) {v : V} {l : List V}
    (hc : Chain pred s l v) : Walk E s l v (dist v) := by
  induction hc with
  | root _ => rw [h.src_dist]; exact Walk.nil s
  | snoc _ hp ih =>
    obtain ⟨⟨w, e, hw⟩, -⟩ := h.step _ _ hp
    rw [hw]
    exact ih.snoc e

/-- A settled node is reached through settled nodes. -/
theorem Labels.chain_settled {u : V} (h : Labels E top s dist pred done queue skip) (hu : u ∈ done)
    (htop : dist u < top) : ∃ l, Chain pred s l u ∧ l.Nodup ∧ ∀ x ∈ l, x ∈ done := by
  have hreach : u = s ∨ (pred u).isSome := by
    cases hp : pred u with
    | none => exact Or.inl ((h.fresh u hp).resolve_right htop.ne)
    | some x => exact Or.inr rfl
  obtain ⟨l, hl, hnd, hdone⟩ := h.chain u hreach
  exact ⟨l, hl, hnd, fun x hx => (hdone x hx).elim (fun heq => heq ▸ hu) id⟩

/-- The predecessor of a labelled node is settled. -/
theorem Labels.pred_settled {x y : V} (h : Labels E top s dist pred done queue skip)
    (hxy : pred x = some y) : y = x ∨ y ∈ done := by
  obtain ⟨l, hl, -, hdone⟩ := h.chain x (Or.inr (by rw [hxy]; rfl))
  cases hl with
  | root h0 => rw [h0] at hxy; cases hxy
  | snoc hch hp =>
    rw [hxy, Option.some.injEq] at hp
    subst hp
    exact hdone y (List.mem_append_left _ hch.mem)

variable [IsOrderedAddMonoid α]

/-- A node that the relaxation of an edge out of the last settled node improves is not settled. -/
theorem Labels.notMem_of_improves {u v : V} {w : α} (hlast : ∀ x ∈ done, dist x ≤ dist u)
    (hw : 0 ≤ w) (hlt : dist u + w < dist v) : v ∉ done := fun hv =>
  absurd (hlt.trans_le (hlast v hv)) (not_lt.mpr (le_add_of_nonneg_right hw))

/-- Relaxing an edge out of the last settled node. -/
theorem Labels.relax [DecidableEq V] {u v : V} {w : α}
    (h : Labels E top s dist pred done queue {u}) (hu : u ∈ done)
    (hlast : ∀ x ∈ done, dist x ≤ dist u) (e : E u w v) (hw : 0 ≤ w) (hlt : dist u + w < dist v) :
    Labels E top s (Function.update dist v (dist u + w)) (Function.update pred v (some u)) done queue
      {u} := by
  have hv : v ∉ done := Labels.notMem_of_improves hlast hw hlt
  have hne : ∀ x ∈ done, x ≠ v := fun x hx hxv => hv (hxv ▸ hx)
  have hdone : ∀ x ∈ done, Function.update dist v (dist u + w) x = dist x := fun x hx =>
    Function.update_of_ne (hne x hx) _ _
  have hle : ∀ x, Function.update dist v (dist u + w) x ≤ dist x := by
    intro x
    rcases eq_or_ne x v with rfl | hx
    · rw [Function.update_self]; exact hlt.le
    · rw [Function.update_of_ne hx]
  have hpos : 0 ≤ dist u + w := add_nonneg (h.nonneg u) hw
  have hvs : v ≠ s := by
    rintro rfl
    rw [h.src_dist] at hlt
    exact absurd (hpos.trans_lt hlt) (lt_irrefl 0)
  have htop : dist u < top := (le_add_of_nonneg_right hw).trans_lt (hlt.trans_le (h.le_top v))
  obtain ⟨lu, hlu, hlnd, hlu_done⟩ := h.chain_settled hu htop
  constructor
  case nonneg =>
    intro x
    rcases eq_or_ne x v with rfl | hx
    · rw [Function.update_self]; exact hpos
    · rw [Function.update_of_ne hx]; exact h.nonneg x
  case le_top => exact fun x => (hle x).trans (h.le_top x)
  case src_dist => rw [Function.update_of_ne hvs.symm]; exact h.src_dist
  case src_pred => rw [Function.update_of_ne hvs.symm]; exact h.src_pred
  case fresh =>
    intro x hx
    have hxv : x ≠ v := by rintro rfl; simp at hx
    rw [Function.update_of_ne hxv] at hx ⊢
    exact h.fresh x hx
  case step =>
    intro x y hxy
    rcases eq_or_ne x v with rfl | hx
    · rw [Function.update_self, Option.some.injEq] at hxy
      subst hxy
      rw [Function.update_self, hdone u hu]
      exact ⟨⟨w, e, rfl⟩, hlt.trans_le (h.le_top x)⟩
    · rw [Function.update_of_ne hx] at hxy ⊢
      obtain ⟨⟨w', e', hw'⟩, hxt⟩ := h.step x y hxy
      refine ⟨⟨w', e', ?_⟩, hxt⟩
      -- the label of the predecessor stands
      rcases h.pred_settled hxy with rfl | hy
      · rw [Function.update_of_ne hx]; exact hw'
      · rw [hdone y hy]; exact hw'
  case chain =>
    intro x hx
    rcases eq_or_ne x v with rfl | hxv
    · refine ⟨lu ++ [x], Chain.snoc (hlu.congr fun y hy => ?_) (Function.update_self ..), ?_, ?_⟩
      · exact Function.update_of_ne (hne y (hlu_done y hy)) _ _
      · refine List.nodup_append.mpr ⟨hlnd, by simp, fun y hy z hz => ?_⟩
        rw [List.mem_singleton.mp hz]
        exact hne y (hlu_done y hy)
      · intro y hy
        rcases List.mem_append.mp hy with hy | hy
        · exact Or.inr (hlu_done y hy)
        · exact Or.inl (List.mem_singleton.mp hy)
    · rw [Function.update_of_ne hxv] at hx
      obtain ⟨l, hl, hnd, hldone'⟩ := h.chain x hx
      refine ⟨l, hl.congr fun y hy => ?_, hnd, hldone'⟩
      refine Function.update_of_ne ?_ _ _
      rcases hldone' y hy with rfl | hy
      · exact hxv
      · exact hne y hy
  case front =>
    intro x hx y hy
    rw [hdone x hx]
    rcases eq_or_ne y v with rfl | hyv
    · rw [Function.update_self]
      exact (hlast x hx).trans (le_add_of_nonneg_right hw)
    · rw [Function.update_of_ne hyv]; exact h.front x hx y hy
  case disj => exact h.disj
  case relaxed =>
    intro x hx hskip w' y e'
    rw [hdone x hx]
    exact (hle y).trans (h.relaxed x hx hskip w' y e')

/-! ### Distances -/

/-- With every edge relaxed, no walk is a short cut. -/
theorem Labels.dist_le (h : Labels E top s dist pred done queue ∅)
    (hall : ∀ u w v, E u w v → u ∈ done) {u v : V} {l : List V} {c : α} (hwalk : Walk E u l v c) :
    dist v ≤ dist u + c := by
  induction hwalk with
  | nil => rw [add_zero]
  | @cons u v d w c l e _ ih =>
    have hrel := h.relaxed u (hall u w v e) (Set.notMem_empty u) w v e
    calc dist d ≤ dist v + c := ih
      _ ≤ dist u + w + c := by gcongr
      _ = dist u + (w + c) := add_assoc ..

omit [IsOrderedAddMonoid α] in
/-- A node other than the source has a predecessor exactly when its label is not the initial one. -/
theorem Labels.pred_isSome_iff (h : Labels E top s dist pred done queue skip) {v : V} (hv : v ≠ s) :
    (pred v).isSome ↔ dist v < top := by
  constructor
  · intro hp
    obtain ⟨u, hu⟩ := Option.isSome_iff_exists.mp hp
    exact (h.step v u hu).2
  · intro hlt
    cases hp : pred v with
    | some u => rfl
    | none => exact absurd ((h.fresh v hp).resolve_left hv) hlt.ne

/-- With every edge relaxed, the chain of a node that is labelled is a shortest walk to it. -/
theorem Labels.shortest (h : Labels E top s dist pred done queue ∅)
    (hall : ∀ u w v, E u w v → u ∈ done) {v : V} (hv : dist v < top) :
    ∃ l, Chain pred s l v ∧ Shortest E s l v (dist v) := by
  have hlab : v = s ∨ (pred v).isSome := by
    by_cases hvs : v = s
    · exact Or.inl hvs
    · exact Or.inr ((h.pred_isSome_iff hvs).mpr hv)
  obtain ⟨l, hl, hnd, -⟩ := h.chain v hlab
  refine ⟨l, hl, h.chain_walk hl, hnd, fun l' c' hw => ?_⟩
  have := h.dist_le hall hw
  rwa [h.src_dist, zero_add] at this

/-- With every edge relaxed, the labelled nodes are those within reach: at the end of a walk of less
    than the initial label. -/
theorem Labels.lt_top_iff (h : Labels E top s dist pred done queue ∅)
    (hall : ∀ u w v, E u w v → u ∈ done) (v : V) :
    dist v < top ↔ ∃ l c, Walk E s l v c ∧ c < top := by
  constructor
  · intro hv
    obtain ⟨l, -, hs⟩ := h.shortest hall hv
    exact ⟨l, _, hs.walk, hv⟩
  · rintro ⟨l, c, hw, hc⟩
    have := h.dist_le hall hw
    rw [h.src_dist, zero_add] at this
    exact this.trans_lt hc

end Labels

/-! ### Descent -/

/-- Where each step leads to a node of smaller rank, the steps lead to `d` and repeat nothing. -/
theorem exists_descending {V α : Type} [Preorder α] [Finite V] (rank : V → α) {hop : V → V → Prop}
    {good : V → Prop} {d : V}
    (h : ∀ u, good u → u ≠ d → ∃ v, hop u v ∧ rank v < rank u ∧ good v) {u : V} (hu : good u) :
    ∃ l : List V, l.head? = some u ∧ l.getLast? = some d ∧ l.Nodup ∧ l.IsChain hop ∧
      ∀ x ∈ l, rank x ≤ rank u := by
  have hwf : WellFounded fun a b : V => rank a < rank b :=
    Finite.wellFounded_of_trans_of_irrefl _
  induction u using hwf.induction with
  | h u ih =>
    by_cases hud : u = d
    · subst hud
      exact ⟨[u], rfl, rfl, by simp, by simp, by simp⟩
    · obtain ⟨v, hop, hlt, hv⟩ := h u hu hud
      obtain ⟨l, hhead, hlast, hnd, hch, hle⟩ := ih v hlt hv
      refine ⟨u :: l, rfl, ?_, List.nodup_cons.mpr ⟨fun hul => ?_, hnd⟩, ?_, ?_⟩
      · cases l with
        | nil => cases hhead
        | cons x l => exact hlast
      · exact absurd hlt (not_lt_of_ge (hle u hul))
      · cases l with
        | nil => cases hhead
        | cons x l =>
          obtain rfl : x = v := by simpa using hhead
          exact List.isChain_cons_cons.mpr ⟨hop, hch⟩
      · intro x hx
        rcases List.mem_cons.mp hx with rfl | hx
        · exact le_rfl
        · exact (hle x hx).trans hlt.le

section Follow
variable {V α : Type} [AddCommMonoid α] [LinearOrder α] [IsOrderedCancelAddMonoid α]
  {E : V → α → V → Prop} {d u : V}

/-- Where the next hop of every node is the second node of a shortest walk to `d`, the walk that follows
    the next hops is itself a shortest one, although each node knows its own shortest walk only. -/
theorem exists_followed [Finite V] (hop : V → V → Prop) (good : V → Prop) (hpos : ∀ u w v, E u w v → 0 < w)
    (h : ∀ u, good u → u ≠ d → ∃ x l c, hop u x ∧ good x ∧ Shortest E u (u :: x :: l) d c)
    (hu : good u) : ∃ l c, Shortest E u l d c ∧ l.IsChain hop := by
  classical
  let rank : V → α := fun x => if hx : ∃ c l, Shortest E x l d c then hx.choose else 0
  have hrank : ∀ {x l c}, Shortest E x l d c → rank x = c := by
    intro x l c hs
    have hx : ∃ c l, Shortest E x l d c := ⟨c, l, hs⟩
    obtain ⟨l', hs'⟩ := hx.choose_spec
    simp only [rank, dif_pos hx]
    exact le_antisymm (hs'.least _ _ hs.walk) (hs.least _ _ hs'.walk)
  suffices hall : ∀ u, good u → ∃ l c, Shortest E u l d c ∧ l.IsChain hop ∧ ∀ x ∈ l, rank x ≤ rank u by
    obtain ⟨l, c, hs, hch, -⟩ := hall u hu
    exact ⟨l, c, hs, hch⟩
  have hwf : WellFounded fun a b : V => rank a < rank b :=
    Finite.wellFounded_of_trans_of_irrefl _
  intro u
  induction u using hwf.induction with
  | h u ih =>
    intro hu
    by_cases hud : u = d
    · subst hud
      refine ⟨[u], 0, ⟨.nil u, by simp, fun l c hw => ?_⟩, by simp, by simp⟩
      exact hw.nonneg fun x w y e => (hpos x w y e).le
    · obtain ⟨x, l, c, hhop, hx, hs⟩ := h u hu hud
      obtain ⟨w, c', e, hs', rfl⟩ := hs.tail
      have hlt : rank x < rank u := by
        rw [hrank hs, hrank hs']
        exact lt_add_of_pos_left c' (hpos u w x e)
      obtain ⟨l2, c2, hs2, hch, hle⟩ := ih x hlt hx
      have hc2 : c2 = c' := (hrank hs2).symm.trans (hrank hs')
      obtain ⟨rest, rfl⟩ := hs2.walk.head
      refine ⟨u :: x :: rest, w + c', ⟨.cons e (hc2 ▸ hs2.walk), ?_, hs.least⟩,
        List.isChain_cons_cons.mpr ⟨hhop, hch⟩, ?_⟩
      · exact List.nodup_cons.mpr ⟨fun hmem => absurd hlt (hle u hmem).not_gt, hs2.nodup⟩
      · intro y hy
        rcases List.mem_cons.mp hy with rfl | hy
        · exact le_rfl
        · exact (hle y hy).trans hlt.le

end Follow

/-! ### Unit weights -/

section Unit
variable {V α : Type} {R : V → V → Prop} {u v : V} {l : List V}

/-- The edges of a relation, each of weight 1. -/
def unitEdges [One α] (R : V → V → Prop) (u : V) (w : α) (v : V) : Prop := w = 1 ∧ R u v

/-- A walk over edges of weight 1 is a chain, and its weight the number of its edges. -/
theorem Walk.chain_of_unit [AddCommMonoidWithOne α] {c : α} (h : Walk (unitEdges R) u l v c) :
    l.head? = some u ∧ l.getLast? = some v ∧ l.IsChain R ∧ c + 1 = l.length := by
  induction h with
  | nil v => exact ⟨rfl, rfl, by simp, by simp⟩
  | @cons u v d w c l e _ ih =>
    obtain ⟨hhead, hlast, hch, hlen⟩ := ih
    obtain ⟨rfl, hr⟩ := e
    cases l with
    | nil => cases hhead
    | cons x l =>
      obtain rfl : x = v := by simpa using hhead
      refine ⟨rfl, by simpa using hlast, List.isChain_cons_cons.mpr ⟨hr, hch⟩, ?_⟩
      rw [add_assoc, hlen, List.length_cons (a := u), Nat.cast_succ, add_comm]

theorem Walk.reach_of_unit [AddCommMonoidWithOne α] {c : α} (h : Walk (unitEdges R) u l v c) :
    Relation.ReflTransGen R u v := by
  induction h with
  | nil => exact .refl
  | cons e _ ih => exact .head e.2 ih

theorem exists_walk_of_chain [AddCommMonoidWithOne α] : ∀ {l : List V} {u : V}, l.head? = some u →
    l.getLast? = some v → l.IsChain R → ∃ c : α, Walk (unitEdges R) u l v c
  | [], _, hhead, _, _ => by cases hhead
  | [x], u, hhead, hlast, _ => by
    obtain rfl : x = u := by simpa using hhead
    obtain rfl : x = v := by simpa using hlast
    exact ⟨0, .nil x⟩
  | x :: y :: l, u, hhead, hlast, hch => by
    obtain rfl : x = u := by simpa using hhead
    obtain ⟨hr, hch⟩ := List.isChain_cons_cons.mp hch
    obtain ⟨c, hw⟩ := exists_walk_of_chain (l := y :: l) rfl (by simpa using hlast) hch
    exact ⟨1 + c, .cons ⟨rfl, hr⟩ hw⟩

theorem exists_walk_of_reach [AddCommMonoidWithOne α] (h : Relation.ReflTransGen R u v) :
    ∃ l, ∃ c : α, Walk (unitEdges R) u l v c := by
  induction h using Relation.ReflTransGen.head_induction_on with
  | refl => exact ⟨_, 0, .nil v⟩
  | head hr _ ih =>
    obtain ⟨l, c, hw⟩ := ih
    exact ⟨_, _, .cons ⟨rfl, hr⟩ hw⟩

end Unit

end Walks
