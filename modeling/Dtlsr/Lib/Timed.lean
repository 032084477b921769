import Mathlib.Data.List.Basic
import Mathlib.Data.Finset.Basic
import Mathlib.Data.List.Chain
import Mathlib.Tactic.Ring
import Mathlib.Tactic.Linarith

/-!
    Timers that a program sets again and again. Several of them are set one after another, each to
    expire at some time or never (`setAll`). A watch is up from a beat until it expires, which is the
    timeout after the last beat: `Exact` is its invariant, and `Exact.up_iff` says of what it is
    the sign. A bell rings, and is set again, when its period is over. -/

namespace Timed

/-! ### Setting timers -/

section Set
variable {κ : Type} [DecidableEq κ]

/-- Each timer of the list is set to what stands there, in the order of the list. -/
def setAll (expiry : κ → Option ℕ) (l : List (κ × Option ℕ)) : κ → Option ℕ :=
  l.foldl (fun expiry t => Function.update expiry t.1 t.2) expiry

variable {expiry : κ → Option ℕ} {l : List (κ × Option ℕ)} {k : κ} {v : Option ℕ}

theorem setAll_of_not_mem (h : k ∉ l.map Prod.fst) : setAll expiry l k = expiry k := by
  induction l generalizing expiry with
  | nil => rfl
  | cons t l ih =>
    obtain ⟨hne, hrest⟩ := not_or.mp (mt List.mem_cons.mpr h)
    exact (ih hrest).trans (Function.update_of_ne hne _ _)

theorem setAll_of_mem (hl : (l.map Prod.fst).Nodup) (h : (k, v) ∈ l) : setAll expiry l k = v := by
  induction l generalizing expiry with
  | nil => cases h
  | cons t l ih =>
    obtain ⟨hnew, hrest⟩ := List.nodup_cons.mp hl
    rcases List.mem_cons.mp h with rfl | h
    · exact (setAll_of_not_mem hnew).trans (Function.update_self _ _ _)
    · exact ih hrest h

end Set

/-! ### Watches -/

/-- A watch at the time `now`, with the time of the last beat. -/
structure Watch where
  up : Bool
  expiry : Option ℕ
  now : ℕ
  last : Option ℕ

/-- What can happen to a watch: time passes, a beat, or its time is over. -/
inductive Step (timeout : ℕ) (w : Watch) : Watch → Prop where
  | pass (d : ℕ) : Step timeout w { w with now := w.now + d }
  | beat : Step timeout w
      { w with up := true, expiry := some (w.now + timeout), last := some w.now }
  | expire (e : ℕ) (set : w.expiry = some e) (due : e ≤ w.now) :
      Step timeout w { w with up := false, expiry := none }

/-- The watch is up if and only if it is set, and then to the timeout after the last beat; while it is
    down there has been no beat for the length of the timeout. -/
structure Exact (timeout : ℕ) (w : Watch) : Prop where
  up : w.up = true → ∃ t, w.last = some t ∧ w.expiry = some (t + timeout)
  down : w.up = false → w.expiry = none ∧ ∀ t ∈ w.last, t + timeout ≤ w.now

variable {timeout : ℕ} {w w' : Watch}

theorem Step.exact (h : Exact timeout w) (hstep : Step timeout w w') : Exact timeout w' := by
  cases hstep with
  | pass d =>
    refine ⟨h.up, fun hdown => ?_⟩
    obtain ⟨hset, hlast⟩ := h.down hdown
    exact ⟨hset, fun t ht => (hlast t ht).trans (Nat.le_add_right _ _)⟩
  | beat => exact ⟨fun _ => ⟨w.now, rfl, rfl⟩, fun hdown => by cases hdown⟩
  | expire e set due =>
    refine ⟨fun hup => absurd hup Bool.false_ne_true, fun _ => ⟨rfl, fun t ht => ?_⟩⟩
    cases hw : w.up with
    | false => exact (h.down hw).2 t ht
    | true =>
      obtain ⟨t', hlast, hexpiry⟩ := h.up hw
      obtain rfl := Option.some.inj (ht.symm.trans hlast)
      rw [Option.some.inj (hexpiry.symm.trans set)]
      exact due

/-- Before its time is over, the watch is up exactly if the last beat is less than the timeout ago. -/
theorem Exact.up_iff (h : Exact timeout w) (hwait : ∀ e ∈ w.expiry, w.now < e) :
    w.up = true ↔ ∃ t ∈ w.last, w.now < t + timeout := by
  constructor
  · intro hup
    obtain ⟨t, hlast, hset⟩ := h.up hup
    exact ⟨t, hlast, hwait _ hset⟩
  · rintro ⟨t, hlast, hlt⟩
    cases hw : w.up with
    | true => rfl
    | false =>
      have := (h.down hw).2 t hlast
      omega

/-! ### Bells -/

/-- A bell at the time `now`, with the time at which it last rang or was first set. -/
structure Bell where
  expiry : Option ℕ
  now : ℕ
  last : ℕ

/-- What can happen to a bell: time passes, or it rings and is set again. -/
inductive Rings (period : ℕ) (b : Bell) : Bell → Prop where
  | pass (d : ℕ) : Rings period b { b with now := b.now + d }
  | ring : Rings period b { b with expiry := some (b.now + period), last := b.now }

/-- The bell is set to ring one period after it last rang. -/
def Bell.Set (period : ℕ) (b : Bell) : Prop := b.expiry = some (b.last + period)

theorem Rings.set {period : ℕ} {b b' : Bell} (h : b.Set period) (hstep : Rings period b b') :
    b'.Set period := by
  cases hstep with
  | pass d => exact h
  | ring => rfl

/-! ### Beats over a wire -/

/-- A bell at one end of a wire, whose strokes are sent to the other end, and may be lost on their way. -/
structure Wire where
  now : ℕ
  /-- when the bell is to ring again -/
  expiry : ℕ
  /-- when the strokes on their way were sent -/
  air : List ℕ
  /-- when the last one was sent that has left the wire, and the last one that has arrived -/
  off : ℕ
  heard : Option ℕ
  /-- how many have been lost since then -/
  lost : ℕ

inductive Wire.Step (period : ℕ) (w : Wire) : Wire → Prop where
  | pass (d : ℕ) : Step period w { w with now := w.now + d }
  | ring (n : ℕ) (due : w.expiry ≤ w.now) :
      Step period w
        { w with expiry := w.now + period, air := w.air ++ List.replicate (n + 1) w.now }
  | arrive (t : ℕ) (rest : List ℕ) (first : w.air = t :: rest) :
      Step period w { w with air := rest, off := t, heard := some t, lost := 0 }
  | lose (t : ℕ) (rest : List ℕ) (first : w.air = t :: rest) :
      Step period w { w with air := rest, off := t, lost := w.lost + 1 }

/-- The bell rings at most `lag` late, no stroke takes longer than `delay`, and no more than `k` are lost
    one after another. -/
structure Wire.Prompt (lag delay k : ℕ) (w : Wire) : Prop where
  ring : w.now ≤ w.expiry + lag
  arrive : ∀ t ∈ w.air, w.now ≤ t + delay
  lose : w.lost ≤ k

instance (lag delay k : ℕ) (w : Wire) : Decidable (w.Prompt lag delay k) :=
  decidable_of_iff (w.now ≤ w.expiry + lag ∧ (∀ t ∈ w.air, w.now ≤ t + delay) ∧ w.lost ≤ k)
    ⟨fun h => ⟨h.1, h.2.1, h.2.2⟩, fun h => ⟨h.ring, h.arrive, h.lose⟩⟩

/-- From one stroke to the next it is at most `gap`. -/
structure Wire.Spaced (period gap start : ℕ) (w : Wire) : Prop where
  chain : (w.off :: w.air).IsChain fun t t' => t' ≤ t + gap
  expiry : ∀ t ∈ (w.off :: w.air).getLast?, w.expiry = t + period
  off : w.off ≤ w.heard.getD start + w.lost * gap

variable {period gap lag delay k start : ℕ} {v v' : Wire}

theorem Wire.Step.spaced (hgap : period + lag ≤ gap) (h : v.Spaced period gap start)
    (hring : v.now ≤ v.expiry + lag) (hstep : v.Step period v') : v'.Spaced period gap start := by
  cases hstep with
  | pass d => exact ⟨h.chain, h.expiry, h.off⟩
  | ring n due =>
    refine ⟨?_, ?_, h.off⟩
    · have hsame : (List.replicate (n + 1) v.now).IsChain fun t t' => t' ≤ t + gap :=
        List.isChain_replicate_of_rel _ (Nat.le_add_right _ _)
      refine List.isChain_append.mpr ⟨h.chain, hsame, fun t ht t' ht' => ?_⟩
      have hset := h.expiry t ht
      obtain rfl : v.now = t' := by simpa [List.replicate_succ] using ht'
      omega
    · intro t ht
      dsimp only at ht
      rw [← List.cons_append, List.getLast?_append, List.getLast?_replicate, if_neg n.succ_ne_zero,
        Option.some_or] at ht
      rw [Option.mem_some_iff.mp ht]
  | arrive t rest first =>
    have hchain := first ▸ h.chain
    have hexpiry := first ▸ h.expiry
    refine ⟨hchain.tail, fun t' ht' => hexpiry t' (List.getLast?_cons_cons.trans ht'), ?_⟩
    rw [Nat.zero_mul, Nat.add_zero]
    exact le_rfl
  | lose t rest first =>
    have hchain := first ▸ h.chain
    have hexpiry := first ▸ h.expiry
    refine ⟨hchain.tail, fun t' ht' => hexpiry t' (List.getLast?_cons_cons.trans ht'), ?_⟩
    calc t ≤ v.off + gap := (List.isChain_cons_cons.mp hchain).1
      _ ≤ v.heard.getD start + v.lost * gap + gap := by have := h.off; omega
      _ = v.heard.getD start + (v.lost + 1) * gap := by ring

/-- The last stroke that has arrived is not old. -/
theorem Wire.Spaced.fresh (hgap : period + lag ≤ gap) (h : v.Spaced period gap start)
    (hprompt : v.Prompt lag delay k) : v.now ≤ v.heard.getD start + (k + 1) * gap + delay := by
  have hlost : v.lost * gap ≤ k * gap := Nat.mul_le_mul_right gap hprompt.lose
  have hoff := h.off
  have hnext : v.now ≤ v.off + gap + delay := by
    cases hair : v.air with
    | nil =>
      have hset := h.expiry v.off (by simp [hair])
      have hring := hprompt.ring
      omega
    | cons t rest =>
      have hchain := hair ▸ h.chain
      have ht := (List.isChain_cons_cons.mp hchain).1
      have harrive := hprompt.arrive t (by simp [hair])
      omega
  calc v.now ≤ v.off + gap + delay := hnext
    _ ≤ v.heard.getD start + k * gap + gap + delay := by omega
    _ = v.heard.getD start + (k + 1) * gap + delay := by ring

end Timed
