import Dtlsr.Lib.Trace
import Mathlib.Algebra.Order.Group.Multiset
import Mathlib.Data.Multiset.UnionInter
import Mathlib.Order.Basic

/-!
    Priority queues, as what they hold and how far each element is. An element is inserted when it is
    not there, its distance may be lowered while it is, and what is popped is an element of least
    distance. Nothing is lost or held twice along a run (`run_present`). -/

namespace PriorityQueue
open Trace

structure Queue (ι D : Type) where
  present : Multiset ι
  dist : ι → D

inductive Event (ι : Type) where
  | insert (n : ι)
  | lower
  /-- `n` is the answer. -/
  | pop (n : ι)

variable {ι D : Type}

inductive QueueStep [DecidableEq ι] [LE D] : Queue ι D → Event ι → Queue ι D → Prop where
  | insert {q : Queue ι D} {n : ι} : n ∉ q.present →
      QueueStep q (.insert n) { q with present := n ::ₘ q.present }
  | lower {q : Queue ι D} {n : ι} {d : D} : n ∈ q.present → d ≤ q.dist n →
      QueueStep q .lower { q with dist := Function.update q.dist n d }
  /-- There is no such element. -/
  | absent {q : Queue ι D} : QueueStep q .lower q
  | pop {q : Queue ι D} {n : ι} {rest : Multiset ι} : q.present = n ::ₘ rest →
      (∀ x ∈ q.present, q.dist n ≤ q.dist x) → QueueStep q (.pop n) { q with present := rest }

def Event.inserted? : Event ι → Option ι
  | .insert n => some n
  | _ => none

def Event.popped? : Event ι → Option ι
  | .pop n => some n
  | _ => none

/-- The elements inserted by the events, in order. -/
def insertedBy (es : List (Event ι)) : List ι := es.filterMap Event.inserted?

/-- The elements popped by the events, in order. -/
def poppedBy (es : List (Event ι)) : List ι := es.filterMap Event.popped?

theorem insertedBy_snoc (es : List (Event ι)) (e : Event ι) :
    insertedBy (es ++ [e]) = insertedBy es ++ e.inserted?.toList := by
  cases e <;> simp [insertedBy, Event.inserted?]

theorem poppedBy_snoc (es : List (Event ι)) (e : Event ι) :
    poppedBy (es ++ [e]) = poppedBy es ++ e.popped?.toList := by
  cases e <;> simp [poppedBy, Event.popped?]

variable [DecidableEq ι] [LE D]

/-- What one step adds and takes away. -/
theorem QueueStep.present_eq {q q' : Queue ι D} {e : Event ι} (h : QueueStep q e q') :
    q'.present + (e.popped?.toList : Multiset ι) = q.present + (e.inserted?.toList : Multiset ι) := by
  cases h with
  | insert _ => simp [Event.popped?, Event.inserted?, ← Multiset.singleton_add, add_comm]
  | lower _ _ => simp [Event.popped?, Event.inserted?]
  | absent => simp [Event.popped?, Event.inserted?]
  | pop hp _ => simp [Event.popped?, Event.inserted?, hp, ← Multiset.singleton_add, add_comm]

theorem QueueStep.nodup {q q' : Queue ι D} {e : Event ι} (h : QueueStep q e q')
    (hn : q.present.Nodup) : q'.present.Nodup := by
  cases h with
  | insert hnew => exact Multiset.nodup_cons.mpr ⟨hnew, hn⟩
  | lower _ _ => exact hn
  | absent => exact hn
  | pop hp _ =>
    rw [hp] at hn
    exact (Multiset.nodup_cons.mp hn).2

theorem QueueStep.pop_least {q q' : Queue ι D} {n : ι} (h : QueueStep q (.pop n) q') :
    n ∈ q.present ∧ ∀ x ∈ q.present, q.dist n ≤ q.dist x := by
  cases h with
  | pop hp hmin => exact ⟨by simp [hp], hmin⟩

/-- Along a run from an empty queue, what is present is what was inserted and not popped yet, once each. -/
theorem run_present {tr : List (Step (Queue ι D) (Event ι))} {q : Queue ι D}
    (hrun : Run (fun q => q.present = 0) QueueStep tr q) : q.present.Nodup ∧
      q.present + (poppedBy (tr.map Step.event) : Multiset ι) = insertedBy (tr.map Step.event) := by
  induction hrun with
  | start h => simp [h, poppedBy, insertedBy]
  | step _ hrel ih =>
    obtain ⟨hn, heq⟩ := ih
    refine ⟨hrel.nodup hn, ?_⟩
    rw [List.map_append, List.map_singleton, poppedBy_snoc, insertedBy_snoc, ← Multiset.coe_add,
      ← Multiset.coe_add, ← heq, add_left_comm, hrel.present_eq, add_left_comm, add_assoc]

end PriorityQueue
