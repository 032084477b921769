import Mathlib.Data.List.Basic
import Mathlib.Data.List.Forall2
import Mathlib.Data.List.Induction

/-!
    Runs of a transition system, kept with their steps. A property may be asked of every step of a run,
    given the steps before it (`Along`), or of a step after which something has not happened (`Since`).
    `Run.invariant` is the usual induction over runs, and `Run.along_iff` compares two properties along
    runs: if under an invariant they agree at the next step, and the invariant is kept where they hold,
    then they hold along the same runs. -/

namespace Trace

/-- One step of a run. -/
structure Step (σ ε : Type) where
  before : σ
  event : ε
  after : σ

variable {σ ε : Type}

/-- The runs from an initial state, with their steps in order. -/
inductive Run (init : σ → Prop) (rel : σ → ε → σ → Prop) : List (Step σ ε) → σ → Prop where
  | start {s : σ} : init s → Run init rel [] s
  | step {tr : List (Step σ ε)} {s s' : σ} {e : ε} : Run init rel tr s → rel s e s' →
      Run init rel (tr ++ [{ before := s, event := e, after := s' }]) s'

/-- `P` holds at every step, of the steps before it and itself. -/
def Along (P : List (Step σ ε) → Step σ ε → Prop) (tr : List (Step σ ε)) : Prop :=
  ∀ pre st post, tr = pre ++ st :: post → P pre st

variable {P Q : List (Step σ ε) → Step σ ε → Prop} {tr : List (Step σ ε)} {st : Step σ ε}

theorem along_nil : Along P [] := by
  intro pre st post h
  simp at h

theorem along_snoc : Along P (tr ++ [st]) ↔ Along P tr ∧ P tr st := by
  constructor
  · intro h
    refine ⟨fun pre st' post heq => ?_, h tr st [] rfl⟩
    exact h pre st' (post ++ [st]) (by rw [heq]; simp)
  · rintro ⟨hall, hlast⟩ pre st' post heq
    rcases List.eq_nil_or_concat post with rfl | ⟨mid, last, rfl⟩
    · obtain ⟨rfl, h⟩ := List.append_inj' heq rfl
      cases h
      exact hlast
    · rw [List.concat_eq_append, ← List.cons_append, ← List.append_assoc] at heq
      obtain ⟨rfl, -⟩ := List.append_inj' heq rfl
      exact hall pre st' mid rfl

theorem along_iff_get : Along P tr ↔ ∀ n : Fin tr.length, P (tr.take n) (tr.get n) := by
  constructor
  · intro h n
    refine h _ _ (tr.drop (n + 1)) ?_
    rw [List.get_eq_getElem, ← List.drop_eq_getElem_cons, List.take_append_drop]
  · rintro h pre st post rfl
    have := h ⟨pre.length, by simp⟩
    simpa using this

instance [∀ pre st, Decidable (P pre st)] : Decidable (Along P tr) :=
  decidable_of_iff _ along_iff_get.symm

/-- Some step satisfies `P`, of the steps before it and itself, and no step after it satisfies `R`. -/
def Since (P : List (Step σ ε) → Step σ ε → Prop) (R : Step σ ε → Prop) (tr : List (Step σ ε)) : Prop :=
  ∃ pre st post, tr = pre ++ st :: post ∧ P pre st ∧ ∀ later ∈ post, ¬R later

section Since
variable {R : Step σ ε → Prop}

theorem not_since_nil : ¬Since P R [] := by
  rintro ⟨pre, st, post, h, -⟩
  simp at h

theorem since_snoc : Since P R (tr ++ [st]) ↔ P tr st ∨ Since P R tr ∧ ¬R st := by
  constructor
  · rintro ⟨pre, st', post, heq, hp, hr⟩
    rcases List.eq_nil_or_concat post with rfl | ⟨mid, last, rfl⟩
    · obtain ⟨rfl, h⟩ := List.append_inj' heq rfl
      cases h
      exact Or.inl hp
    · rw [List.concat_eq_append] at heq hr
      rw [← List.cons_append, ← List.append_assoc] at heq
      obtain ⟨rfl, h⟩ := List.append_inj' heq rfl
      cases h
      exact Or.inr ⟨⟨pre, st', mid, rfl, hp, fun later hl => hr later (by simp [hl])⟩, hr _ (by simp)⟩
  · rintro (hp | ⟨⟨pre, st', post, rfl, hp, hr⟩, hlast⟩)
    · exact ⟨tr, st, [], rfl, hp, by simp⟩
    · refine ⟨pre, st', post ++ [st], by simp, hp, fun later hl => ?_⟩
      rcases List.mem_append.mp hl with hl | hl
      · exact hr later hl
      · obtain rfl := List.mem_singleton.mp hl
        exact hlast

theorem Since.mono {R' : Step σ ε → Prop} (h : Since P R tr) (hr : ∀ later, R' later → R later) :
    Since P R' tr := by
  obtain ⟨pre, st, post, heq, hp, hnone⟩ := h
  exact ⟨pre, st, post, heq, hp, fun later hl h => hnone later hl (hr later h)⟩

theorem since_iff_get : Since P R tr ↔
    ∃ n : Fin tr.length, P (tr.take n) (tr.get n) ∧ ∀ later ∈ tr.drop (n + 1), ¬R later := by
  constructor
  · rintro ⟨pre, st, post, rfl, hp, hr⟩
    exact ⟨⟨pre.length, by simp⟩, by simpa using hp, by simpa using hr⟩
  · rintro ⟨n, hp, hr⟩
    refine ⟨_, _, tr.drop (n + 1), ?_, hp, hr⟩
    rw [List.get_eq_getElem, ← List.drop_eq_getElem_cons, List.take_append_drop]

instance [∀ pre st, Decidable (P pre st)] [DecidablePred R] : Decidable (Since P R tr) :=
  decidable_of_iff _ since_iff_get.symm

end Since

variable {init : σ → Prop} {rel : σ → ε → σ → Prop} {s : σ}

/-- What holds at the start and is kept by each step holds at the end of every run. -/
theorem Run.invariant {I : List (Step σ ε) → σ → Prop} (h0 : ∀ s, init s → I [] s)
    (hstep : ∀ tr s e s', Run init rel tr s → I tr s → rel s e s' →
      I (tr ++ [{ before := s, event := e, after := s' }]) s')
    (hrun : Run init rel tr s) : I tr s := by
  induction hrun with
  | start h => exact h0 _ h
  | step hr hrel ih => exact hstep _ _ _ _ hr ih hrel

theorem Run.mono {rel' : σ → ε → σ → Prop} (hrun : Run init rel tr s)
    (h : ∀ s e s', rel s e s' → rel' s e s') : Run init rel' tr s := by
  induction hrun with
  | start h0 => exact .start h0
  | step _ hrel ih => exact ih.step (h _ _ _ hrel)

/-- A run ends with its last step. -/
theorem Run.of_snoc (hrun : Run init rel (tr ++ [st]) s) :
    Run init rel tr st.before ∧ rel st.before st.event st.after ∧ s = st.after := by
  generalize htr : tr ++ [st] = tr' at hrun
  cases hrun with
  | start _ => simp at htr
  | step hr hrel =>
    obtain ⟨rfl, h⟩ := List.append_inj' htr rfl
    cases h
    exact ⟨hr, hrel, rfl⟩

/-- The last state of a run is the one after its last step. -/
theorem Run.last (hrun : Run init rel (tr ++ [st]) s) : s = st.after := hrun.of_snoc.2.2

/-- Where something has been found of the last step, there is one, and the run ends with it. -/
theorem Run.at_end {p : Step σ ε → Bool} (hrun : Run init rel tr s) (h : tr.getLast?.any p = true) :
    ∃ st ∈ tr, st.after = s ∧ p st = true := by
  cases hrun with
  | start _ => cases h
  | step _ _ => exact ⟨_, List.mem_append_right _ (List.mem_singleton_self _), rfl, by simpa using h⟩

/-- The steps before a step of a run are a run to the state before it. -/
theorem Run.until {post : List (Step σ ε)} (hrun : Run init rel (tr ++ st :: post) s) :
    Run init rel tr st.before ∧ rel st.before st.event st.after := by
  induction post using List.reverseRecOn generalizing s with
  | nil => exact ⟨hrun.of_snoc.1, hrun.of_snoc.2.1⟩
  | append_singleton post last ih =>
    rw [← List.cons_append, ← List.append_assoc] at hrun
    exact ih hrun.of_snoc.1

/-- A run may be cut in two. -/
theorem Run.split {tr' : List (Step σ ε)} (hrun : Run init rel (tr ++ tr') s) :
    ∃ s0, Run init rel tr s0 ∧ Run (fun x => x = s0) rel tr' s := by
  induction tr' using List.reverseRecOn generalizing s with
  | nil =>
    rw [List.append_nil] at hrun
    exact ⟨s, hrun, .start rfl⟩
  | append_singleton tr' last ih =>
    rw [← List.append_assoc] at hrun
    obtain ⟨hbefore, hrel, rfl⟩ := hrun.of_snoc
    obtain ⟨s0, hrun0, hrun'⟩ := ih hbefore
    exact ⟨s0, hrun0, hrun'.step hrel⟩

/-- Two properties hold along the same runs when they agree at each next step, under an invariant that
    is kept where they hold. -/
theorem Run.along_iff {I : List (Step σ ε) → σ → Prop} (h0 : ∀ s, init s → I [] s)
    (hstep : ∀ tr st, I tr st.before → rel st.before st.event st.after →
      (P tr st ↔ Q tr st) ∧ (Q tr st → I (tr ++ [st]) st.after))
    (hrun : Run init rel tr s) : Along P tr ↔ Along Q tr := by
  suffices h : (Along P tr ↔ Along Q tr) ∧ (Along Q tr → I tr s) from h.1
  induction hrun with
  | start h => exact ⟨⟨fun _ => along_nil, fun _ => along_nil⟩, fun _ => h0 _ h⟩
  | step _ hrel ih =>
    obtain ⟨hiff, hinv⟩ := ih
    rw [along_snoc, along_snoc]
    constructor
    · constructor
      · rintro ⟨hall, hlast⟩
        have hq := hiff.mp hall
        exact ⟨hq, (hstep _ _ (hinv hq) hrel).1.mp hlast⟩
      · rintro ⟨hall, hlast⟩
        exact ⟨hiff.mpr hall, (hstep _ _ (hinv hall) hrel).1.mpr hlast⟩
    · rintro ⟨hall, hlast⟩
      exact (hstep _ _ (hinv hall) hrel).2 hlast

/-- What each step satisfies, under an invariant of the runs, holds along them. -/
theorem Run.along {I : List (Step σ ε) → σ → Prop} (h0 : ∀ s, init s → I [] s)
    (hstep : ∀ tr s e s', I tr s → rel s e s' →
      P tr { before := s, event := e, after := s' } ∧
        I (tr ++ [{ before := s, event := e, after := s' }]) s')
    (hrun : Run init rel tr s) : Along P tr ∧ I tr s := by
  induction hrun with
  | start h => exact ⟨along_nil, h0 _ h⟩
  | step _ hrel ih =>
    obtain ⟨hall, hinv⟩ := ih
    obtain ⟨hlast, hnext⟩ := hstep _ _ _ _ hinv hrel
    exact ⟨along_snoc.mpr ⟨hall, hlast⟩, hnext⟩

/-! ### Two runs -/

section Two
variable {σ₂ ε₂ : Type} {init₂ : σ₂ → Prop} {rel₂ : σ₂ → ε₂ → σ₂ → Prop} {s₂ : σ₂}
  {E : ε → ε₂ → Prop} {R : σ → σ₂ → Prop}

theorem forall₂_snoc {α β : Type} {Q : α → β → Prop} : ∀ {l : List α} {l₂ : List β} {a : α},
    List.Forall₂ Q (l ++ [a]) l₂ → ∃ m b, l₂ = m ++ [b] ∧ List.Forall₂ Q l m ∧ Q a b
  | [], _, _, .cons hab .nil => ⟨[], _, rfl, .nil, hab⟩
  | _ :: _, _, _, .cons hxy h => by
    obtain ⟨m, b, rfl, hm, hab⟩ := forall₂_snoc h
    exact ⟨_ :: m, b, rfl, .cons hxy hm, hab⟩

/-- What relates the initial states of two runs on related events, and is kept by their steps, relates
    the states that they reach, and what follows of each two steps holds along both. -/
theorem Run.forall₂ {Q : Step σ ε → Step σ₂ ε₂ → Prop}
    (h0 : ∀ s s₂, init s → init₂ s₂ → R s s₂)
    (hstep : ∀ s e s' s₂ e₂ s₂', R s s₂ → E e e₂ → rel s e s' → rel₂ s₂ e₂ s₂' → R s' s₂' ∧
      Q { before := s, event := e, after := s' } { before := s₂, event := e₂, after := s₂' })
    (hrun : Run init rel tr s) : ∀ {tr₂ : List (Step σ₂ ε₂)} {s₂ : σ₂}, Run init₂ rel₂ tr₂ s₂ →
      List.Forall₂ E (tr.map Step.event) (tr₂.map Step.event) → R s s₂ ∧ List.Forall₂ Q tr tr₂ := by
  induction hrun with
  | start hs =>
    intro tr₂ s₂ hrun₂ hev
    cases hrun₂ with
    | start hs₂ => exact ⟨h0 _ _ hs hs₂, .nil⟩
    | step _ _ =>
      have := hev.length_eq
      simp at this
  | step _ hrel ih =>
    intro tr₂ s₂ hrun₂ hev
    rw [List.map_append, List.map_singleton] at hev
    obtain ⟨m, e₂, heq, hm, hE⟩ := forall₂_snoc hev
    cases hrun₂ with
    | start _ => simp at heq
    | step hr₂ hrel₂ =>
      rw [List.map_append, List.map_singleton] at heq
      obtain ⟨rfl, h⟩ := List.append_inj' heq rfl
      cases h
      obtain ⟨hR, hQ⟩ := ih hr₂ hm
      obtain ⟨hR', hlast⟩ := hstep _ _ _ _ _ _ hR hE hrel hrel₂
      exact ⟨hR', List.rel_append hQ (.cons hlast .nil)⟩

/-- Where every step can be followed by the other system, so can every run. -/
theorem Run.follows (h0 : ∀ s, init s → ∃ s₂, init₂ s₂ ∧ R s s₂)
    (hstep : ∀ s e s' s₂ e₂, R s s₂ → E e e₂ → rel s e s' → ∃ s₂', rel₂ s₂ e₂ s₂' ∧ R s' s₂')
    (hrun : Run init rel tr s) : ∀ {evs : List ε₂}, List.Forall₂ E (tr.map Step.event) evs →
      ∃ tr₂ s₂, Run init₂ rel₂ tr₂ s₂ ∧ tr₂.map Step.event = evs ∧ R s s₂ := by
  induction hrun with
  | start hs =>
    intro evs hev
    cases hev
    obtain ⟨s₂, hs₂, hR⟩ := h0 _ hs
    exact ⟨[], s₂, .start hs₂, rfl, hR⟩
  | step _ hrel ih =>
    intro evs hev
    rw [List.map_append, List.map_singleton] at hev
    obtain ⟨m, e₂, rfl, hm, hE⟩ := forall₂_snoc hev
    obtain ⟨tr₂, s₂, hrun₂, hevents, hR⟩ := ih hm
    obtain ⟨s₂', hrel₂, hR'⟩ := hstep _ _ _ _ _ hR hE hrel
    exact ⟨_, s₂', hrun₂.step hrel₂, by simp [hevents], hR'⟩

end Two

/-! ### Given events -/

section Follow
variable {φ : Type} {A : σ → ε → Prop} {f : ε → σ → Except φ σ}

/-- The steps that the events take, each allowed by `A` and computed by `f`, added to `tr`; none if one
    of them cannot happen. -/
def follow (A : σ → ε → Prop) [∀ s e, Decidable (A s e)] (f : ε → σ → Except φ σ) :
    List ε → List (Step σ ε) → σ → Option (List (Step σ ε))
  | [], tr, _ => some tr
  | e :: es, tr, s =>
    if A s e then
      match f e s with
      | .ok s' => follow A f es (tr ++ [{ before := s, event := e, after := s' }]) s'
      | .error _ => none
    else none

theorem follow_run [∀ s e, Decidable (A s e)] : ∀ {es : List ε} {tr tr' : List (Step σ ε)} {s : σ},
    Run init (fun s e s' => A s e ∧ f e s = .ok s') tr s → follow A f es tr s = some tr' →
      (∃ s', Run init (fun s e s' => A s e ∧ f e s = .ok s') tr' s') ∧
        tr'.map Step.event = tr.map Step.event ++ es
  | [], _, _, s, hrun, h => by
    cases h
    exact ⟨⟨s, hrun⟩, by simp⟩
  | e :: es, tr, tr', s, hrun, h => by
    unfold follow at h
    split at h
    · rename_i hA
      split at h
      · rename_i s' hs'
        obtain ⟨hrun', hevents⟩ := follow_run (hrun.step ⟨hA, hs'⟩) h
        exact ⟨hrun', by simpa using hevents⟩
      · cases h
    · cases h

/-- A run on given events, of which a property has been checked. -/
theorem exists_follow [∀ s e, Decidable (A s e)] {s0 : σ} (h0 : init s0) (es : List ε)
    {P : List (Step σ ε) → Prop} [DecidablePred P]
    (h : (follow A f es [] s0).any (fun tr => P tr) = true) :
    ∃ tr s, Run init (fun s e s' => A s e ∧ f e s = .ok s') tr s ∧
      tr.map Step.event = es ∧ P tr := by
  cases hes : follow A f es [] s0 with
  | none => rw [hes] at h; cases h
  | some tr =>
    rw [hes] at h
    obtain ⟨⟨s, hrun⟩, hevents⟩ := follow_run (.start h0) hes
    exact ⟨tr, s, hrun, hevents, by simpa using h⟩

end Follow

end Trace
