import Mathlib.Logic.Relation
import Dtlsr.Lib.Register

/-!
    Flooding over first-in-first-out links that lose nothing. An origin publishes versions with ever
    later stamps over its links, or the last one again; every other node keeps a register as in `Lib/Register`, and passes on a
    version exactly when its register takes it, over all its links but those that lead back. The first
    version may come to a node without the links. A register ignores a later version of the content that
    it holds, so a node does not see every version; but it sees every change of content in order
    (`Passes`), and when the content has changed at all and the links of a path from the origin are empty,
    the node at its end has the last content (`Led.settles`), which it keeps until the origin publishes
    another (`Step.settled`). -/

namespace Flood
open Register

variable {ι L α τ : Type} [LinearOrder τ]

/-- What the origin has published, what each node holds, and what is on its way over each link. -/
structure State (ι L α : Type) where
  published : List α
  held : ι → Option α
  queue : L → List α

section Protocol
variable [DecidableEq ι] [DecidableEq L] (src dst : L → ι) (o : ι)
  (R : α → α → Prop) [DecidableRel R] (t : α → τ)

/-- The register takes the version: it is empty, or holds an older version of another content. -/
def Takes (h : Option α) (x : α) : Prop := ∀ y ∈ h, t y < t x ∧ ¬R y x

/-- What the register holds afterwards. -/
def take (h : Option α) (x : α) : Option α := some (h.elim x fun y => offer R t y x)

/-- What a step puts on the links: copies of `x`, and only on those that lead away from `v`. -/
structure Sends (v : ι) (x : α) (out : L → List α) : Prop where
  copies : ∀ l, ∀ y ∈ out l, y = x
  from_here : ∀ l, src l ≠ v → out l = []

/-- One step: the origin publishes a version or repeats the last one; or a version arrives at the end of a link, and a register
    that takes it passes it on over all links but those that lead back; or a node learns of the first
    version. The origin may do what it likes with a version that has come back to it. -/
inductive Step (s : State ι L α) : State ι L α → Prop where
  | publish (x : α) (out : L → List α)
      (later : (∀ y ∈ s.published, t y < t x) ∨ s.published.getLast? = some x)
      (sends : Sends src o x out) (all : ∀ l, src l = o → x ∈ out l) :
      Step s { s with published := s.published ++ [x], queue := fun l => s.queue l ++ out l }
  | deliver (l : L) (x : α) (rest : List α) (out : L → List α) (other : dst l ≠ o)
      (head : s.queue l = x :: rest) (sends : Sends src (dst l) x out)
      (taken : Takes R t (s.held (dst l)) x → ∀ l', src l' = dst l → dst l' ≠ src l → x ∈ out l')
      (ignored : ¬Takes R t (s.held (dst l)) x → ∀ l', out l' = []) :
      Step s { s with
        held := Function.update s.held (dst l) (take R t (s.held (dst l)) x)
        queue := fun l' => Function.update s.queue l rest l' ++ out l' }
  | learn (z : ι) (x : α) (other : z ≠ o) (first : s.published.head? = some x)
      (empty : s.held z = none) :
      Step s { s with held := Function.update s.held z (some x) }
  | echo (l : L) (x : α) (rest : List α) (out : L → List α) (origin : dst l = o)
      (head : s.queue l = x :: rest) (sends : Sends src o x out) :
      Step s { s with queue := fun l' => Function.update s.queue l rest l' ++ out l' }

variable {R t}

theorem take_of_takes {h : Option α} {x : α} (hx : Takes R t h x) : take R t h x = some x := by
  cases h with
  | none => rfl
  | some y =>
    obtain ⟨hlt, hn⟩ := hx y rfl
    exact congrArg some (offer_newer hlt hn)

theorem take_of_not_takes {h : Option α} {x : α} (hx : ¬Takes R t h x) : take R t h x = h := by
  cases h with
  | none => exact absurd (fun y hy => by cases hy) hx
  | some y =>
    refine congrArg some (if_neg fun hc => hx fun z hz => ?_)
    obtain rfl := Option.some.inj hz
    exact hc

end Protocol

/-! ### Phases -/

/-- `φ` numbers the contents that the origin has published one after another. -/
structure Phases (R : α → α → Prop) (t : α → τ) (l : List α) (φ : α → ℕ) : Prop where
  pos : ∀ x ∈ l, 1 ≤ φ x
  same : ∀ x ∈ l, ∀ y ∈ l, φ x = φ y → R x y
  next : ∀ x ∈ l, ∀ y ∈ l, φ y = φ x + 1 → ¬R x y
  order : ∀ x ∈ l, ∀ y ∈ l, φ x < φ y → t x < t y

/-- The number of what a node holds; a node that holds nothing is in the first phase too. -/
def phase (φ : α → ℕ) (h : Option α) : ℕ := h.elim 1 φ

/-- A node that is in phase `m` and receives `l` takes no two steps at a time, and ends in `n` or
    later. -/
def Passes (φ : α → ℕ) : ℕ → List α → ℕ → Prop
  | m, [], n => n ≤ m
  | m, x :: l, n => φ x ≤ m + 1 ∧ Passes φ (max m (φ x)) l n

section Passes
variable {φ ψ : α → ℕ} {m m' n n' : ℕ} {l p : List α} {x : α}

theorem Passes.mono (h : Passes φ m l n) (hm : m ≤ m') (hn : n' ≤ n) : Passes φ m' l n' := by
  induction l generalizing m m' with
  | nil => exact hn.trans (le_trans h hm)
  | cons y l ih => exact ⟨h.1.trans (by omega), ih h.2 (max_le_max_right _ hm)⟩

theorem Passes.congr (h : Passes φ m l n) (heq : ∀ y ∈ l, ψ y = φ y) : Passes ψ m l n := by
  induction l generalizing m with
  | nil => exact h
  | cons y l ih =>
    have hy := heq y List.mem_cons_self
    refine ⟨by rw [hy]; exact h.1, ?_⟩
    rw [hy]
    exact ih h.2 fun z hz => heq z (List.mem_cons_of_mem _ hz)

/-- A node does not fall back. -/
theorem Passes.of_le (h : Passes φ m l n) (hn : n' ≤ m) : Passes φ m l n' := by
  induction l generalizing m with
  | nil => exact hn
  | cons y l ih => exact ⟨h.1, ih h.2 (le_max_of_le_left hn)⟩

/-- What follows may be one phase further. -/
theorem Passes.append (h : Passes φ m l n) (hp : ∀ y ∈ p, φ y ≤ n + 1) :
    Passes φ m (l ++ p) n ∧ ∀ y ∈ p, Passes φ m (l ++ p) (φ y) := by
  induction l generalizing m with
  | cons z l ih =>
    obtain ⟨h1, h2⟩ := ih h.2
    exact ⟨⟨h.1, h1⟩, fun y hy => ⟨h.1, h2 y hy⟩⟩
  | nil =>
    rw [List.nil_append]
    have hn : n ≤ m := h
    clear h
    induction p generalizing m with
    | nil => exact ⟨hn, fun y hy => by cases hy⟩
    | cons z p ih =>
      have hz := hp z List.mem_cons_self
      have hp' : ∀ y ∈ p, φ y ≤ n + 1 := fun y hy => hp y (List.mem_cons_of_mem _ hy)
      obtain ⟨h1, h2⟩ := ih hp' (le_max_of_le_left hn)
      refine ⟨⟨by omega, h1⟩, fun y hy => ⟨by omega, ?_⟩⟩
      rcases List.mem_cons.mp hy with rfl | hy
      · exact h1.of_le (le_max_right _ _)
      · exact h2 y hy

end Passes

section Phases
variable {R : α → α → Prop} {t : α → τ} {l : List α} {φ : α → ℕ}

/-- The number of the last version. -/
def top (φ : α → ℕ) (l : List α) : ℕ := phase φ l.getLast?

@[simp] theorem top_snoc (x : α) : top φ (l ++ [x]) = φ x := by
  rw [top, List.getLast?_concat]
  rfl

theorem le_top (hφ : Phases R t l φ) (hlater : l.Pairwise fun x y => t x < t y ∨ x = y) {x : α}
    (hx : x ∈ l) :
    φ x ≤ top φ l := by
  rcases List.eq_nil_or_concat l with rfl | ⟨m, last, rfl⟩
  · cases hx
  · rw [List.concat_eq_append] at hx hφ hlater ⊢
    rw [top_snoc]
    rcases List.mem_append.mp hx with hxm | hxm
    · by_contra hlt
      have hafter := hφ.order last (by simp) x hx (by omega)
      rcases (List.pairwise_append.mp hlater).2.2 x hxm last (List.mem_singleton_self _) with hbefore | rfl
      · exact lt_asymm hafter hbefore
      · exact lt_irrefl _ hafter
    · rw [List.mem_singleton.mp hxm]

/-- A version of the last phase has the content of the last one. -/
theorem Phases.last (hφ : Phases R t l φ) {y : α} (hy : y ∈ l) (heq : φ y = top φ l) :
    ∃ z ∈ l.getLast?, z ∈ l ∧ φ z = top φ l ∧ R y z := by
  cases hl : l.getLast? with
  | none => rw [List.getLast?_eq_none_iff.mp hl] at hy; cases hy
  | some z =>
    have hz := List.mem_of_getLast? hl
    have htop : φ z = top φ l := by
      rw [top, hl]
      rfl
    exact ⟨z, rfl, hz, htop, hφ.same y hy z hz (heq.trans htop.symm)⟩

/-- A later version joins with a number of its own. -/
theorem Phases.join (hR : Equivalence R) (hφ : Phases R t l φ) {x : α} (hx : ∀ y ∈ l, t y < t x)
    {n : ℕ} (hpos : 1 ≤ n) (hle : ∀ y ∈ l, φ y ≤ n) (hsame : ∀ y ∈ l, φ y = n → R y x)
    (hnext : ∀ y ∈ l, n = φ y + 1 → ¬R y x) :
    ∃ ψ, Phases R t (l ++ [x]) ψ ∧ (∀ y ∈ l, ψ y = φ y) ∧ ψ x = n := by
  classical
  have hold : ∀ y ∈ l, Function.update φ x n y = φ y := fun y hy =>
    Function.update_of_ne (fun heq => lt_irrefl _ (heq ▸ hx y hy)) _ _
  have hself : Function.update φ x n x = n := Function.update_self ..
  have hmem : ∀ y ∈ l ++ [x], y ∈ l ∨ y = x := fun y hy => by simpa using hy
  refine ⟨Function.update φ x n, ⟨fun y hy => ?_, fun y hy z hz h => ?_, fun y hy z hz h => ?_,
    fun y hy z hz h => ?_⟩, hold, hself⟩
  · rcases hmem y hy with hyl | rfl
    · rw [hold y hyl]
      exact hφ.pos y hyl
    · rw [hself]
      exact hpos
  · rcases hmem y hy with hyl | rfl <;> rcases hmem z hz with hzl | rfl
    · rw [hold y hyl, hold z hzl] at h
      exact hφ.same y hyl z hzl h
    · rw [hold y hyl, hself] at h
      exact hsame y hyl h
    · rw [hself, hold z hzl] at h
      exact hR.symm (hsame z hzl h.symm)
    · exact hR.refl _
  · rcases hmem y hy with hyl | rfl <;> rcases hmem z hz with hzl | rfl
    · rw [hold y hyl, hold z hzl] at h
      exact hφ.next y hyl z hzl h
    · rw [hold y hyl, hself] at h
      exact hnext y hyl h
    · have := hle z hzl
      rw [hself, hold z hzl] at h
      omega
    · omega
  · rcases hmem y hy with hyl | rfl <;> rcases hmem z hz with hzl | rfl
    · rw [hold y hyl, hold z hzl] at h
      exact hφ.order y hyl z hzl h
    · exact hx y hyl
    · have := hle z hzl
      rw [hself, hold z hzl] at h
      omega
    · exact absurd h (lt_irrefl _)

/-- The last version may be repeated. -/
theorem Phases.repeat_last (hφ : Phases R t l φ) {x : α} (hx : x ∈ l) : Phases R t (l ++ [x]) φ := by
  have hmem : ∀ y ∈ l ++ [x], y ∈ l := by
    intro y hy
    rcases List.mem_append.mp hy with hy | hy
    · exact hy
    · rw [List.mem_singleton.mp hy]
      exact hx
  exact ⟨fun y hy => hφ.pos y (hmem y hy), fun y hy z hz => hφ.same y (hmem y hy) z (hmem z hz),
    fun y hy z hz => hφ.next y (hmem y hy) z (hmem z hz),
    fun y hy z hz => hφ.order y (hmem y hy) z (hmem z hz)⟩

/-- One more version belongs to the last phase, or begins the next one. -/
theorem Phases.snoc (hR : Equivalence R) (hφ : Phases R t l φ)
    (hlater : l.Pairwise fun x y => t x < t y ∨ x = y) {x : α}
    (hx : (∀ y ∈ l, t y < t x) ∨ l.getLast? = some x) :
    ∃ ψ, Phases R t (l ++ [x]) ψ ∧ (∀ y ∈ l, ψ y = φ y) ∧ top φ l ≤ ψ x ∧ ψ x ≤ top φ l + 1 := by
  have htop : ∀ y ∈ l, φ y ≤ top φ l := fun y hy => le_top hφ hlater hy
  rcases hx with hx | hx
  swap
  · have hlast : φ x = top φ l := by
      rw [top, hx]
      rfl
    exact ⟨φ, hφ.repeat_last (List.mem_of_getLast? hx), fun _ _ => rfl, hlast.ge, by omega⟩
  by_cases h : ∃ z ∈ l.getLast?, R z x
  · obtain ⟨z, hz, hzx⟩ := h
    have hzl := List.mem_of_getLast? hz
    have hzt : φ z = top φ l := by
      rw [top, hz]
      rfl
    obtain ⟨ψ, hψ, hold, hself⟩ := hφ.join hR hx (hzt ▸ hφ.pos z hzl) htop
      (fun y hy heq => hR.trans (hφ.same y hy z hzl (heq.trans hzt.symm)) hzx)
      (fun y hy heq hyx => hφ.next y hy z hzl (hzt.trans heq) (hR.trans hyx (hR.symm hzx)))
    exact ⟨ψ, hψ, hold, hself.ge, by omega⟩
  · obtain ⟨ψ, hψ, hold, hself⟩ := hφ.join hR hx (n := top φ l + 1) (by omega)
      (fun y hy => (htop y hy).trans (Nat.le_succ _))
      (fun y hy heq => absurd (htop y hy) (by omega)) (fun y hy heq hyx => by
        obtain ⟨z, hz, -, -, hyz⟩ := hφ.last hy (by omega)
        exact h ⟨z, hz, hR.trans (hR.symm hyz) hyx⟩)
    exact ⟨ψ, hψ, hold, by omega, hself.le⟩

end Phases

/-! ### The invariant -/

section Invariant
variable [DecidableEq ι] {src dst : L → ι} {o : ι} {R : α → α → Prop} {t : α → τ}

/-- The phase in which a node is. -/
def place (o : ι) (φ : α → ℕ) (s : State ι L α) (z : ι) : ℕ :=
  if z = o then top φ s.published else phase φ (s.held z)

/-- What is on the way, and what is held, has been published, and every node is led on in order, to
    where the sender is. -/
structure Led (src dst : L → ι) (o : ι) (R : α → α → Prop) (t : α → τ) (s : State ι L α)
    (φ : α → ℕ) : Prop where
  first : ∃ x rest, s.published = x :: rest ∧ φ x = 1
  later : s.published.Pairwise fun x y => t x < t y ∨ x = y
  phases : Phases R t s.published φ
  held : ∀ z ≠ o, ∀ x ∈ s.held z, x ∈ s.published
  queued : ∀ l, ∀ x ∈ s.queue l, x ∈ s.published ∧ φ x ≤ place o φ s (src l)
  passes : ∀ l, Passes φ (place o φ s (dst l)) (s.queue l) (place o φ s (src l))

omit [DecidableEq ι] in
/-- An empty register takes every version, and another one a version that is of a later phase. -/
theorem takes_iff {l : List α} {φ : α → ℕ} (hφ : Phases R t l φ) {h : Option α} {x : α}
    (hh : ∀ y ∈ h, y ∈ l) (hx : x ∈ l) (hle : φ x ≤ phase φ h + 1) :
    Takes R t h x ↔ h = none ∨ phase φ h < φ x := by
  cases h with
  | none =>
    refine ⟨fun _ => Or.inl rfl, fun _ y hy => ?_⟩
    cases hy
  | some y =>
    have hy := hh y rfl
    have hcond : Takes R t (some y) x ↔ t y < t x ∧ ¬R y x := by simp [Takes]
    have hphase : (some y = none ∨ phase φ (some y) < φ x) ↔ φ y < φ x := by
      refine ⟨fun h => h.resolve_left (Option.some_ne_none y), Or.inr⟩
    rw [hcond, hphase]
    change φ x ≤ φ y + 1 at hle
    constructor
    · rintro ⟨hlt, hn⟩
      by_contra hge
      rcases Nat.lt_or_eq_of_le (Nat.not_lt.mp hge) with h | h
      · exact lt_asymm hlt (hφ.order x hx y hy h)
      · exact hn (hφ.same y hy x hx h.symm)
    · intro hlt
      exact ⟨hφ.order y hy x hx hlt, hφ.next y hy x hx (by omega)⟩

omit [DecidableEq ι] [LinearOrder τ] in
theorem phase_congr {φ ψ : α → ℕ} {h : Option α} (heq : ∀ x ∈ h, ψ x = φ x) :
    phase ψ h = phase φ h := by
  cases h with
  | none => rfl
  | some x => exact heq x rfl

@[simp] theorem place_origin {φ : α → ℕ} {s : State ι L α} : place o φ s o = top φ s.published :=
  if_pos rfl

theorem place_other {φ : α → ℕ} {s : State ι L α} {z : ι} (hz : z ≠ o) :
    place o φ s z = phase φ (s.held z) := if_neg hz

/-- A link may be given what its sender has, if it is no further than one phase. -/
theorem Passes.send {φ : α → ℕ} {m n n' : ℕ} {q out : List α} {x : α} (h : Passes φ m q n)
    (copies : ∀ y ∈ out, y = x) (hx : φ x ≤ n + 1) (hn : n' ≤ n ∨ (n' ≤ φ x ∧ x ∈ out) ∨ n' ≤ m) :
    Passes φ m (q ++ out) n' := by
  obtain ⟨h1, h2⟩ := h.append (p := out) fun y hy => by rw [copies y hy]; exact hx
  rcases hn with hn | ⟨hn, hmem⟩ | hn
  · exact h1.mono le_rfl hn
  · exact (h2 x hmem).mono le_rfl hn
  · exact h1.of_le hn

variable {s : State ι L α} {φ : α → ℕ}

theorem Led.le_top (hs : Led src dst o R t s φ) {x : α} (hx : x ∈ s.published) :
    φ x ≤ place o φ s o := by
  rw [place_origin]
  exact Flood.le_top hs.phases hs.later hx

omit [DecidableEq ι] in
/-- What is published is later than what was before it, or the same. -/
theorem later_snoc {l : List α} {x : α} (hl : l.Pairwise fun x y => t x < t y ∨ x = y)
    (later : (∀ y ∈ l, t y < t x) ∨ l.getLast? = some x) :
    (l ++ [x]).Pairwise fun x y => t x < t y ∨ x = y := by
  refine List.pairwise_append.mpr ⟨hl, List.pairwise_singleton _ _, fun y hy z hz => ?_⟩
  rw [List.mem_singleton.mp hz]
  rcases later with later | hlast
  · exact Or.inl (later y hy)
  · obtain ⟨l', rfl⟩ := List.getLast?_eq_some_iff.mp hlast
    rcases List.mem_append.mp hy with hy | hy
    · exact (List.pairwise_append.mp hl).2.2 y hy x (List.mem_singleton_self x)
    · exact Or.inr (List.mem_singleton.mp hy)

theorem Led.publish (hR : Equivalence R) (hs : Led src dst o R t s φ) {x : α} {out : L → List α}
    (later : (∀ y ∈ s.published, t y < t x) ∨ s.published.getLast? = some x) (sends : Sends src o x out)
    (all : ∀ l, src l = o → x ∈ out l) :
    ∃ ψ, Led src dst o R t
      { s with published := s.published ++ [x], queue := fun l => s.queue l ++ out l } ψ := by
  obtain ⟨ψ, hψ, hold, htop, hnext⟩ := hs.phases.snoc hR hs.later later
  generalize hs' : ({ s with published := s.published ++ [x], queue := fun l => s.queue l ++ out l } :
    State ι L α) = s'
  have horigin : place o ψ s' o = ψ x := by rw [← hs', place_origin, top_snoc]
  have hother : ∀ z ≠ o, place o ψ s' z = place o φ s z := by
    intro z hz
    rw [place_other hz, place_other hz, ← hs']
    exact phase_congr fun y hy => hold y (hs.held z hz y hy)
  have hmono : ∀ z, place o φ s z ≤ place o ψ s' z := by
    intro z
    by_cases hz : z = o
    · rw [hz, horigin, place_origin]
      exact htop
    · exact (hother z hz).ge
  refine ⟨ψ, ?_, ?_, ?_, ?_, fun l y hy => ?_, fun l => ?_⟩
  · obtain ⟨x0, rest, hpub, hone⟩ := hs.first
    rw [← hs']
    refine ⟨x0, rest ++ [x], by rw [hpub]; rfl, ?_⟩
    rw [hold x0 (by rw [hpub]; exact List.mem_cons_self), hone]
  · rw [← hs']
    exact later_snoc hs.later later
  · rw [← hs']
    exact hψ
  · intro z hz y hy
    rw [← hs'] at hy ⊢
    exact List.mem_append_left _ (hs.held z hz y hy)
  · rw [← hs'] at hy
    rcases List.mem_append.mp hy with hy | hy
    · obtain ⟨hmem, hle⟩ := hs.queued l y hy
      rw [hold y hmem, ← hs']
      exact ⟨List.mem_append_left _ hmem, hle.trans (hs' ▸ hmono (src l))⟩
    · have hl : src l = o := by
        by_contra hne
        rw [sends.from_here l hne] at hy
        cases hy
      rw [sends.copies l y hy, hl, horigin, ← hs']
      exact ⟨List.mem_append_right _ (List.mem_singleton_self x), le_rfl⟩
  · have hpass := ((hs.passes l).congr fun y hy => hold y (hs.queued l y hy).1).mono
      (hmono (dst l)) le_rfl
    have hqueue : s'.queue l = s.queue l ++ out l := by rw [← hs']
    rw [hqueue]
    by_cases hl : src l = o
    · rw [hl] at hpass ⊢
      rw [place_origin] at hpass
      rw [horigin]
      exact hpass.send (sends.copies l) hnext (Or.inr (Or.inl ⟨le_rfl, all l hl⟩))
    · rw [sends.from_here l hl, List.append_nil, hother _ hl]
      exact hpass

variable [DecidableEq L]

/-- What is on the link has been on the way before. -/
theorem mem_of_mem_update {q : L → List α} {l l' : L} {x y : α} {rest : List α} (hl : q l = x :: rest)
    (hy : y ∈ Function.update q l rest l') : y ∈ q l' := by
  by_cases h : l' = l
  · subst h
    rw [Function.update_self] at hy
    rw [hl]
    exact List.mem_cons_of_mem _ hy
  · rwa [Function.update_of_ne h] at hy

/-- When `x` has been received at the end of link `l`, every node is still led on, if the phase of that
    node is the number of `x` or has been later. -/
theorem Led.received (hs : Led src dst o R t s φ) (place' : ι → ℕ) {l : L} {x : α} {rest : List α}
    (head : s.queue l = x :: rest) (hhere : max (place o φ s (dst l)) (φ x) ≤ place' (dst l))
    (hmono : ∀ z, place o φ s z ≤ place' z) (l' : L) :
    Passes φ (place' (dst l')) (Function.update s.queue l rest l') (place o φ s (src l')) := by
  have hpass := hs.passes l'
  by_cases h : l' = l
  · subst h
    rw [head] at hpass
    rw [Function.update_self]
    exact hpass.2.mono hhere le_rfl
  · rw [Function.update_of_ne h]
    exact hpass.mono (hmono _) le_rfl

theorem Led.echo (hs : Led src dst o R t s φ) {l : L} {x : α} {rest : List α} {out : L → List α}
    (origin : dst l = o) (head : s.queue l = x :: rest) (sends : Sends src o x out) :
    Led src dst o R t { s with queue := fun l' => Function.update s.queue l rest l' ++ out l' } φ := by
  have hx := (hs.queued l x (by rw [head]; exact List.mem_cons_self)).1
  have htop := hs.le_top hx
  refine ⟨hs.first, hs.later, hs.phases, hs.held, fun l' y hy => ?_, fun l' => ?_⟩
  · rcases List.mem_append.mp hy with hy | hy
    · exact hs.queued l' y (mem_of_mem_update head hy)
    · have hl : src l' = o := by
        by_contra hne
        rw [sends.from_here l' hne] at hy
        cases hy
      rw [sends.copies l' y hy, hl]
      exact ⟨hx, htop⟩
  · have hpass := hs.received (place o φ s) head (by rw [origin]; exact max_le le_rfl htop)
      (fun _ => le_rfl) l'
    by_cases hl : src l' = o
    · rw [hl] at hpass
      exact hpass.send (sends.copies l') (by omega) (Or.inl (by rw [hl]; exact le_rfl))
    · dsimp only
      rw [sends.from_here l' hl, List.append_nil]
      exact hpass

theorem Led.deliver [DecidableRel R] (hs : Led src dst o R t s φ) {l : L} {x : α} {rest : List α}
    {out : L → List α} (other : dst l ≠ o) (head : s.queue l = x :: rest)
    (sends : Sends src (dst l) x out)
    (taken : Takes R t (s.held (dst l)) x → ∀ l', src l' = dst l → dst l' ≠ src l → x ∈ out l')
    (ignored : ¬Takes R t (s.held (dst l)) x → ∀ l', out l' = []) :
    Led src dst o R t { s with
      held := Function.update s.held (dst l) (take R t (s.held (dst l)) x)
      queue := fun l' => Function.update s.queue l rest l' ++ out l' } φ := by
  obtain ⟨hx, hsender⟩ := hs.queued l x (by rw [head]; exact List.mem_cons_self)
  have hstep : φ x ≤ place o φ s (dst l) + 1 := by
    have hpass := hs.passes l
    rw [head] at hpass
    exact hpass.1
  have htakes : Takes R t (s.held (dst l)) x ↔
      s.held (dst l) = none ∨ place o φ s (dst l) < φ x := by
    rw [place_other other] at hstep ⊢
    exact takes_iff hs.phases (hs.held _ other) hx hstep
  by_cases htake : Takes R t (s.held (dst l)) x
  · have hle : place o φ s (dst l) ≤ φ x := by
      rcases htakes.mp htake with hnone | hlt
      · rw [place_other other, hnone]
        exact hs.phases.pos x hx
      · exact hlt.le
    rw [take_of_takes htake]
    generalize hs' : ({ s with
      held := Function.update s.held (dst l) (some x)
      queue := fun l' => Function.update s.queue l rest l' ++ out l' } : State ι L α) = s'
    have hhere : place o φ s' (dst l) = φ x := by
      rw [place_other other, ← hs']
      simp only [Function.update_self]
      rfl
    have hthere : ∀ z ≠ dst l, place o φ s' z = place o φ s z := by
      intro z hz
      unfold place
      rw [← hs']
      simp only [Function.update_of_ne hz]
    have hmono : ∀ z, place o φ s z ≤ place o φ s' z := by
      intro z
      by_cases hz : z = dst l
      · rw [hz, hhere]
        exact hle
      · exact (hthere z hz).ge
    refine ⟨by rw [← hs']; exact hs.first, by rw [← hs']; exact hs.later,
      by rw [← hs']; exact hs.phases, fun z hz y hy => ?_, fun l' y hy => ?_, fun l' => ?_⟩
    · rw [← hs'] at hy ⊢
      dsimp only at hy ⊢
      by_cases hzl : z = dst l
      · rw [hzl, Function.update_self] at hy
        rw [← Option.some.inj hy]
        exact hx
      · rw [Function.update_of_ne hzl] at hy
        exact hs.held z hz y hy
    · have hpub : s'.published = s.published := by rw [← hs']
      rw [hpub]
      rw [← hs'] at hy
      rcases List.mem_append.mp hy with hy | hy
      · obtain ⟨hmem, hle⟩ := hs.queued l' y (mem_of_mem_update head hy)
        exact ⟨hmem, hle.trans (hmono _)⟩
      · have hl : src l' = dst l := by
          by_contra hne
          rw [sends.from_here l' hne] at hy
          cases hy
        rw [sends.copies l' y hy, hl, hhere]
        exact ⟨hx, le_rfl⟩
    · have hpass := hs.received (place o φ s') head (by rw [hhere]; exact max_le hle le_rfl) hmono l'
      have hqueue : s'.queue l' = Function.update s.queue l rest l' ++ out l' := by rw [← hs']
      rw [hqueue]
      by_cases hl : src l' = dst l
      · rw [hl] at hpass ⊢
        rw [hhere]
        refine hpass.send (sends.copies l') hstep ?_
        by_cases hback : dst l' = src l
        · -- the node at the other end has sent it
          exact Or.inr (Or.inr (by rw [hback]; exact hsender.trans (hmono _)))
        · exact Or.inr (Or.inl ⟨le_rfl, taken htake l' hl hback⟩)
      · rw [sends.from_here l' hl, List.append_nil, hthere _ hl]
        exact hpass
  · have hge := Nat.not_lt.mp fun h => htake (htakes.mpr (Or.inr h))
    rw [take_of_not_takes htake, Function.update_eq_self]
    refine ⟨hs.first, hs.later, hs.phases, hs.held, fun l' y hy => ?_, fun l' => ?_⟩
    · simp only [ignored htake, List.append_nil] at hy
      exact hs.queued l' y (mem_of_mem_update head hy)
    · simp only [ignored htake, List.append_nil]
      exact hs.received (place o φ s) head (max_le le_rfl hge) (fun _ => le_rfl) l'

omit [DecidableEq L] in
theorem Led.learn (hs : Led src dst o R t s φ) {z : ι} {x : α} (first : s.published.head? = some x)
    (empty : s.held z = none) :
    Led src dst o R t { s with held := Function.update s.held z (some x) } φ := by
  obtain ⟨x0, published, hpub, hone⟩ := hs.first
  obtain rfl : x0 = x := by simpa [hpub] using first
  have hplace : ∀ w, place o φ { s with held := Function.update s.held z (some x0) } w =
      place o φ s w := by
    intro w
    unfold place
    dsimp only
    by_cases hw : w = z
    · rw [hw, Function.update_self, empty]
      exact if_congr Iff.rfl rfl hone
    · rw [Function.update_of_ne hw]
  refine ⟨hs.first, hs.later, hs.phases, fun w hw y hy => ?_, fun l y hy => ?_, fun l => ?_⟩
  · dsimp only at hy ⊢
    by_cases hwz : w = z
    · rw [hwz, Function.update_self] at hy
      rw [← Option.some.inj hy, hpub]
      exact List.mem_cons_self
    · rw [Function.update_of_ne hwz] at hy
      exact hs.held w hw y hy
  · rw [hplace]
    exact hs.queued l y hy
  · rw [hplace, hplace]
    exact hs.passes l

end Invariant

/-! ### Runs -/

section Runs
variable [DecidableEq ι] {src dst : L → ι} {o : ι} {R : α → α → Prop} {t : α → τ}

/-- Only the first version is there. -/
def State.start (x : α) : State ι L α where
  published := [x]
  held _ := none
  queue _ := []

theorem start_led (hR : Equivalence R) (x : α) : Led src dst o R t (State.start x) fun _ => 1 where
  first := ⟨x, [], rfl, rfl⟩
  later := List.pairwise_singleton _ _
  phases := by
    have hx : ∀ y ∈ [x], y = x := fun y hy => List.mem_singleton.mp hy
    refine ⟨fun _ _ => le_rfl, fun y hy z hz _ => ?_, fun _ _ _ _ h => by omega,
      fun _ _ _ _ h => by omega⟩
    change y ∈ [x] at hy
    change z ∈ [x] at hz
    rw [hx y hy, hx z hz]
    exact hR.refl x
  held z _ y hy := by cases hy
  queued l y hy := by cases hy
  passes l := by
    have hplace : ∀ z : ι, place o (fun _ => 1) (State.start x : State ι L α) z = 1 := by
      intro z
      unfold place
      split <;> rfl
    rw [hplace, hplace]
    exact le_rfl

theorem Step.led [DecidableEq L] [DecidableRel R] (hR : Equivalence R) {s s' : State ι L α}
    (h : Step src dst o R t s s') (hs : ∃ φ, Led src dst o R t s φ) :
    ∃ φ, Led src dst o R t s' φ := by
  obtain ⟨φ, hs⟩ := hs
  cases h with
  | publish x out later sends all => exact hs.publish hR later sends all
  | deliver l x rest out other head sends taken ignored =>
    exact ⟨φ, hs.deliver other head sends taken ignored⟩
  | learn z x other first empty => exact ⟨φ, hs.learn first empty⟩
  | echo l x rest out origin head sends => exact ⟨φ, hs.echo origin head sends⟩

/-- Nothing is on its way over a link from `v` to `w`. -/
def Idle (src dst : L → ι) (s : State ι L α) (v w : ι) : Prop :=
  ∃ l, src l = v ∧ dst l = w ∧ s.queue l = []

/-- What node `z` holds has the content of every version that is later. -/
def Settled (R : α → α → Prop) (t : α → τ) (s : State ι L α) (z : ι) : Prop :=
  ∃ x, s.held z = some x ∧ ∀ y ∈ s.published, t x < t y → R x y

variable {s s' : State ι L α} {φ : α → ℕ} {z : ι}

/-- Where the links of a path from the origin are idle, the node at its end is settled, if the content has
    changed at all. -/
theorem Led.settled (hs : Led src dst o R t s φ) (hz : z ≠ o)
    (hpath : Relation.ReflTransGen (Idle src dst s) o z) {first : α}
    (hfirst : s.published.head? = some first) (hchange : ∃ x ∈ s.published, ¬R first x) :
    Settled R t s z := by
  have hreach : place o φ s o ≤ place o φ s z := by
    clear hz
    induction hpath with
    | refl => exact le_rfl
    | tail _ hidle ih =>
      obtain ⟨l, rfl, rfl, hl⟩ := hidle
      have hpass := hs.passes l
      rw [hl] at hpass
      exact ih.trans hpass
  have htwo : 1 < place o φ s o := by
    obtain ⟨x, hx, hne⟩ := hchange
    obtain ⟨x0, rest, hpub, hone⟩ := hs.first
    obtain rfl : x0 = first := by simpa [hpub] using hfirst
    have hx0 : x0 ∈ s.published := by rw [hpub]; exact List.mem_cons_self
    have hpos := hs.phases.pos x hx
    have hle := hs.le_top hx
    have hother : φ x ≠ 1 := fun h => hne (hs.phases.same x0 hx0 x hx (hone.trans h.symm))
    omega
  rw [place_other hz] at hreach
  cases hheld : s.held z with
  | none =>
    rw [hheld] at hreach
    exact absurd (htwo.trans_le hreach) (lt_irrefl 1)
  | some x =>
    rw [hheld] at hreach
    have hx := hs.held z hz x hheld
    refine ⟨x, hheld, fun y hy hlt => ?_⟩
    -- nothing is of a later phase than `x`, and what is of an earlier one is earlier
    rcases ((hs.le_top hy).trans hreach).lt_or_eq with h | h
    · exact absurd (hs.phases.order y hy x hx h) hlt.not_gt
    · exact hs.phases.same x hx y hy h.symm

/-- A node that is settled holds the content of what was published last. -/
theorem Led.last_of_settled (hR : Equivalence R) (hs : Led src dst o R t s φ) (hz : z ≠ o)
    (h : Settled R t s z) {last : α} (hlast : s.published.getLast? = some last) :
    ∃ x, s.held z = some x ∧ R x last := by
  obtain ⟨x, hheld, hlater⟩ := h
  refine ⟨x, hheld, ?_⟩
  obtain ⟨l, hl⟩ := List.getLast?_eq_some_iff.mp hlast
  have hx := hs.held z hz x hheld
  rw [hl] at hx
  rcases List.mem_append.mp hx with hx | hx
  · have hpair := hs.later
    rw [hl] at hpair
    rcases (List.pairwise_append.mp hpair).2.2 x hx last (List.mem_singleton_self last) with hlt | rfl
    · exact hlater last (List.mem_of_getLast? hlast) hlt
    · exact hR.refl x
  · rw [List.mem_singleton.mp hx]
    exact hR.refl last

/-- Where the links of a path from the origin are idle, the node at its end has the content of what was
    published last, if the content has changed at all. -/
theorem Led.settles (hR : Equivalence R) (hs : Led src dst o R t s φ) (hz : z ≠ o)
    (hpath : Relation.ReflTransGen (Idle src dst s) o z) {first last : α}
    (hfirst : s.published.head? = some first) (hlast : s.published.getLast? = some last)
    (hchange : ∃ x ∈ s.published, ¬R first x) : ∃ x, s.held z = some x ∧ R x last :=
  hs.last_of_settled hR hz (hs.settled hz hpath hfirst hchange) hlast

/-- A node stays settled while what is published keeps the content of the last version. -/
theorem Step.settled [DecidableEq L] [DecidableRel R] (hR : Equivalence R)
    (hs : Led src dst o R t s φ) (h : Step src dst o R t s s') (hz : z ≠ o) (hset : Settled R t s z)
    (hkeeps : ∀ y ∈ s'.published, y ∈ s.published ∨ ∀ last ∈ s.published.getLast?, R last y) :
    Settled R t s' z := by
  obtain ⟨x, hheld, hlater⟩ := hset
  cases h with
  | publish y out later sends all =>
    refine ⟨x, hheld, fun y' hy' hlt => ?_⟩
    rcases hkeeps y' hy' with hold | hnew
    · exact hlater y' hold hlt
    · obtain ⟨x0, rest, hpub, -⟩ := hs.first
      obtain ⟨last, hlast⟩ : ∃ last, s.published.getLast? = some last :=
        Option.isSome_iff_exists.mp (by simp [hpub])
      obtain ⟨x', hheld', hx'⟩ := hs.last_of_settled hR hz ⟨x, hheld, hlater⟩ hlast
      obtain rfl := Option.some.inj (hheld.symm.trans hheld')
      exact hR.trans hx' (hnew last hlast)
  | deliver l y rest out other head sends taken ignored =>
    refine ⟨x, ?_, hlater⟩
    by_cases hzl : z = dst l
    · subst hzl
      dsimp only
      rw [Function.update_self, hheld]
      -- what arrives has been published, so it is no news
      refine take_of_not_takes fun htakes => ?_
      have hy := (hs.queued l y (by rw [head]; exact List.mem_cons_self)).1
      obtain ⟨hlt, hne⟩ := htakes x rfl
      exact hne (hlater y hy hlt)
    · dsimp only
      rw [Function.update_of_ne hzl, hheld]
  | learn w y other first empty =>
    refine ⟨x, ?_, hlater⟩
    have hzw : z ≠ w := by
      rintro rfl
      rw [hheld] at empty
      cases empty
    dsimp only
    rw [Function.update_of_ne hzw, hheld]
  | echo => exact ⟨x, hheld, hlater⟩

end Runs

end Flood
