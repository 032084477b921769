import Dtlsr.Heap
import Dtlsr.Lib.PriorityQueue

/-!
    The heap over whole runs. A run starts from an empty heap and takes `minheap_insert`,
    `minheap_decrease_dist` and `minheap_pop` in any order, each where its caller may use it. The runs
    are those of a priority queue. -/

namespace Dtlsr
open Checked HeapOrder Trace

/-- The heap, and the distances in the nodes it points at. -/
structure HeapState (ι D : Type) where
  heap : MinHeap ι
  tentDist : ι → D

inductive HeapEvent (ι : Type) where
  | insert (n : ι)
  | decreaseDist (target newDist : ℤ)
  /-- `n` is the node that is returned. -/
  | pop (n : ι)

section Runs
variable {ι D : Type} [DecidableEq ι] [LinearOrder D] [IntCast D]

/-- The operations, as their callers may use them: a node that is not in the heap goes into a heap that
    is not full, a distance is lowered if at all, and a heap that is not empty is popped. -/
inductive HeapStep (id : ι → ℤ) : HeapState ι D → HeapEvent ι → HeapState ι D → Prop where
  | insert {s : HeapState ι D} {n : ι} {h : MinHeap ι} : s.heap.size < s.heap.maxSize →
      n ∉ s.heap.nodePtrs → minheapInsert s.tentDist s.heap n = .ok h →
      HeapStep id s (.insert n) { s with heap := h }
  | decreaseDist {s : HeapState ι D} {target newDist : ℤ} {h : MinHeap ι} {tentDist : ι → D} :
      (∀ n, s.heap.nodePtrs.find? (fun n => id n = target) = some n →
        (newDist : D) ≤ s.tentDist n) →
      minheapDecreaseDist s.tentDist id s.heap target newDist = .ok (tentDist, h) →
      HeapStep id s (.decreaseDist target newDist) { heap := h, tentDist := tentDist }
  | pop {s : HeapState ι D} {n : ι} {h : MinHeap ι} : 0 < s.heap.size →
      minheapPop s.tentDist s.heap = .ok (n, h) → HeapStep id s (.pop n) { s with heap := h }

/-- The runs from an empty heap of any size, whatever the distances in the nodes. -/
abbrev HeapRun (id : ι → ℤ) : List (Step (HeapState ι D) (HeapEvent ι)) → HeapState ι D → Prop :=
  Run (fun s => s.heap.nodePtrs = []) (HeapStep id)

/-- The heap is in order, and holds no node twice. -/
structure HeapInv (s : HeapState ι D) : Prop where
  ordered : s.heap.Ordered s.tentDist
  nodup : s.heap.nodePtrs.Nodup

/-- The priority queue that a heap stands for. -/
def HeapState.queue (s : HeapState ι D) : PriorityQueue.Queue ι D :=
  { present := s.heap.nodePtrs, dist := s.tentDist }

def HeapEvent.queueEvent : HeapEvent ι → PriorityQueue.Event ι
  | .insert n => .insert n
  | .decreaseDist _ _ => .lower
  | .pop n => .pop n

variable {id : ι → ℤ} {s s' : HeapState ι D} {e : HeapEvent ι}
  {tr : List (Step (HeapState ι D) (HeapEvent ι))}

omit [DecidableEq ι] [IntCast D] in
theorem HeapInv.of_empty (h : s.heap.nodePtrs = []) : HeapInv s where
  ordered c _ _ := by simp [keys, h]
  nodup := by simp [h]

/-- One operation keeps the invariant, and does what a priority queue does. -/
theorem HeapStep.refines (hI : HeapInv s) (h : HeapStep id s e s') :
    HeapInv s' ∧ PriorityQueue.QueueStep s.queue e.queueEvent s'.queue := by
  cases h with
  | @insert n h hsize hnew hins =>
    obtain ⟨out, hout, -, hperm, ho⟩ := minheapInsert_ensures hsize hI.ordered n
    rw [hins] at hout
    cases hout
    refine ⟨⟨ho, hperm.nodup_iff.mpr (List.nodup_cons.mpr ⟨hnew, hI.nodup⟩)⟩, ?_⟩
    have hpresent : (h.nodePtrs : Multiset ι) = n ::ₘ (s.heap.nodePtrs : Multiset ι) :=
      Multiset.coe_eq_coe.mpr hperm
    simp only [HeapState.queue, HeapEvent.queueEvent, hpresent]
    exact .insert (q := s.queue) hnew
  | @decreaseDist target newDist h tentDist hle hdec =>
    obtain ⟨out, hout, -, hperm, ho, hdist⟩ := minheapDecreaseDist_ensures hI.ordered hI.nodup hle
    rw [hdec] at hout
    cases hout
    refine ⟨⟨ho, hperm.nodup_iff.mpr hI.nodup⟩, ?_⟩
    have hpresent : (h.nodePtrs : Multiset ι) = s.heap.nodePtrs := Multiset.coe_eq_coe.mpr hperm
    simp only [HeapState.queue, HeapEvent.queueEvent, hpresent]
    rcases hdist with rfl | ⟨n, hn, hlen, rfl⟩
    · exact .absent
    · exact .lower (q := s.queue) hn hlen
  | @pop n h hpos hpop =>
    obtain ⟨out, hout, -, hperm, ho, hmin⟩ := minheapPop_ensures hpos hI.ordered
    rw [hpop] at hout
    cases hout
    have hnodup := hperm.nodup_iff.mpr hI.nodup
    refine ⟨⟨ho, (List.nodup_cons.mp hnodup).2⟩, ?_⟩
    exact .pop (q := s.queue) (Multiset.coe_eq_coe.mpr hperm.symm) hmin

/-- Every run keeps the invariant, and is a run of the priority queue. -/
theorem HeapRun.refines (hrun : HeapRun id tr s) : HeapInv s ∧ ∃ qtr,
    Run (fun q => q.present = 0) PriorityQueue.QueueStep qtr s.queue ∧
      qtr.map Step.event = tr.map fun st => st.event.queueEvent := by
  have hevs : List.Forall₂ (fun e e₂ => e₂ = HeapEvent.queueEvent e) (tr.map Step.event)
      (tr.map fun st => st.event.queueEvent) := by
    rw [List.forall₂_map_left_iff, List.forall₂_map_right_iff]
    exact List.forall₂_same.mpr fun _ _ => rfl
  have hfollows : ∃ qtr q, Run (fun q => q.present = 0) PriorityQueue.QueueStep qtr q ∧
      qtr.map Step.event = (tr.map fun st => st.event.queueEvent) ∧ HeapInv s ∧ q = s.queue := by
    refine Run.follows (R := fun (s : HeapState ι D) q => HeapInv s ∧ q = s.queue)
      (fun s hs => ⟨s.queue, by simp [HeapState.queue, hs], HeapInv.of_empty hs, rfl⟩) ?_ hrun hevs
    rintro s e s' _ _ ⟨hI, rfl⟩ rfl hrel
    obtain ⟨hI', hstep⟩ := hrel.refines hI
    exact ⟨s'.queue, hstep, hI', rfl⟩
  obtain ⟨qtr, q, hq, hevents, hI, rfl⟩ := hfollows
  exact ⟨hI, qtr, hq, hevents⟩

/-- The nodes inserted along a run, in order. -/
def inserted (tr : List (Step (HeapState ι D) (HeapEvent ι))) : List ι :=
  PriorityQueue.insertedBy (tr.map fun st => st.event.queueEvent)

/-- The nodes popped along a run, in order. -/
def popped (tr : List (Step (HeapState ι D) (HeapEvent ι))) : List ι :=
  PriorityQueue.poppedBy (tr.map fun st => st.event.queueEvent)

/-- The entries are the nodes inserted and not popped yet, once each. -/
theorem HeapRun.entries (hrun : HeapRun id tr s) :
    s.heap.nodePtrs.Nodup ∧ (s.heap.nodePtrs ++ popped tr).Perm (inserted tr) := by
  obtain ⟨hI, qtr, hq, hevents⟩ := hrun.refines
  have hpresent := (PriorityQueue.run_present hq).2
  rw [hevents] at hpresent
  exact ⟨hI.nodup, Multiset.coe_eq_coe.mp hpresent⟩

/-- Every pop of a run returned a node that was there, of least distance. -/
theorem HeapRun.pops (hrun : HeapRun id tr s) : Along (fun _ st => ∀ n, st.event = .pop n →
    n ∈ st.before.heap.nodePtrs ∧
      ∀ x ∈ st.before.heap.nodePtrs, st.before.tentDist n ≤ st.before.tentDist x) tr := by
  rintro pre ⟨before, event, after⟩ post rfl n rfl
  obtain ⟨hpre, hstep⟩ := hrun.until
  exact (hstep.refines (HeapRun.refines hpre).1).2.pop_least

/-- The heap is a priority queue. After every run from an empty heap, no entry but the root is closer
    than its parent, the entries are the nodes inserted and not popped yet, once each, every pop has
    returned a node of least distance among those there, and the next operation returns. -/
theorem heap_is_priority_queue (hrun : HeapRun id tr s) :
    (∀ c x y, 0 < c → s.heap.nodePtrs[parent c]? = some x → s.heap.nodePtrs[c]? = some y →
      s.tentDist x ≤ s.tentDist y) ∧
    (s.heap.nodePtrs.Nodup ∧ (s.heap.nodePtrs ++ popped tr).Perm (inserted tr)) ∧
    Along (fun _ st => ∀ n, st.event = .pop n → n ∈ st.before.heap.nodePtrs ∧
      ∀ x ∈ st.before.heap.nodePtrs, st.before.tentDist n ≤ st.before.tentDist x) tr ∧
    (∀ n, s.heap.size < s.heap.maxSize → n ∉ s.heap.nodePtrs → ∃ s', HeapStep id s (.insert n) s') ∧
    (∀ target newDist : ℤ, (∀ n, s.heap.nodePtrs.find? (fun n => id n = target) = some n →
      (newDist : D) ≤ s.tentDist n) → ∃ s', HeapStep id s (.decreaseDist target newDist) s') ∧
    (0 < s.heap.size → ∃ n s', HeapStep id s (.pop n) s') := by
  have hI := (HeapRun.refines hrun).1
  refine ⟨MinHeap.ordered_iff.mp hI.ordered, HeapRun.entries hrun, HeapRun.pops hrun, ?_, ?_, ?_⟩
  · intro n hsize hnew
    obtain ⟨h, hh, -⟩ := minheapInsert_ensures hsize hI.ordered n
    exact ⟨_, .insert hsize hnew hh⟩
  · intro target newDist hle
    obtain ⟨_, hh, -⟩ := minheapDecreaseDist_ensures hI.ordered hI.nodup hle
    exact ⟨_, .decreaseDist hle hh⟩
  · intro hpos
    obtain ⟨_, hh, -⟩ := minheapPop_ensures hpos hI.ordered
    exact ⟨_, _, .pop hpos hh⟩

end Runs

/-- Two nodes at distances 5 and 3: the farther one is lowered to 1, and popped first. -/
theorem heap_is_priority_queue_two_nodes :
    ∃ (tr : List (Step (HeapState ℕ ℤ) (HeapEvent ℕ))) (s : HeapState ℕ ℤ),
      HeapRun (fun n : ℕ => (n : ℤ) + 7) tr s ∧ inserted tr = [0, 1] ∧ popped tr = [0] ∧
      s.heap.nodePtrs = [1] ∧ (s.heap.nodePtrs ++ popped tr).Perm (inserted tr) := by
  have h0 : HeapRun (fun n : ℕ => (n : ℤ) + 7) []
      { heap := minheapAlloc 2, tentDist := fun n : ℕ => if n = 0 then (5 : ℤ) else 3 } := .start rfl
  have h1 := h0.step (.insert (n := 0) (h := ⟨2, [0]⟩) (by decide) (by decide) rfl)
  have h2 := h1.step (.insert (n := 1) (h := ⟨2, [1, 0]⟩) (by decide) (by decide) rfl)
  have h3 := h2.step (e := .decreaseDist 7 1) (.decreaseDist (h := ⟨2, [0, 1]⟩) (by decide) rfl)
  have h4 := h3.step (.pop (n := 0) (h := ⟨2, [1]⟩) (by decide) rfl)
  exact ⟨_, _, h4, rfl, rfl, rfl, (heap_is_priority_queue h4).2.1.2⟩

end Dtlsr
