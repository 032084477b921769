import Mathlib.Data.Fintype.Basic
import Mathlib.Data.Fin.Tuple.Basic
import Mathlib.Data.List.FinRange
import Mathlib.Logic.Function.Basic
import Mathlib.Tactic.Common

/-!
    Checked execution. A C function is read as a pure function into `Exec`: it returns a value or
    stops in a `Fault`. Arrays are total functions on `Fin n` that are read and written through an
    integer index, and an index outside the array is a fault. `Ensures` is the total-correctness
    triple (the code returns, and what it returns satisfies the postcondition). The loop rules at the
    end carry an invariant through `for (i = 0; i < n; i++)` and through a search that stops at the
    first hit. -/

namespace Checked

/-- The ways an execution can go wrong. -/
inductive Fault where
  | outOfBounds | nullDeref | uninit | assertFail | abort | outOfFuel
  deriving DecidableEq, Repr

/-- The result of an execution: a value or a fault. -/
abbrev Exec (α : Type) := Except Fault α

variable {α β σ : Type}

/-- Total correctness: `x` returns, and its value satisfies `Q`. -/
def Ensures (x : Exec α) (Q : α → Prop) : Prop := ∃ a, x = .ok a ∧ Q a

theorem bind_ok_iff {x : Exec α} {f : α → Exec β} {b : β} :
    (x >>= f) = .ok b ↔ ∃ a, x = .ok a ∧ f a = .ok b := by
  constructor
  · intro h
    cases x with
    | ok a => exact ⟨a, rfl, h⟩
    | error e => cases h
  · rintro ⟨a, rfl, hf⟩
    exact hf

theorem bind_error_iff {x : Exec α} {f : α → Exec β} {e : Fault} :
    (x >>= f) = .error e ↔ x = .error e ∨ ∃ a, x = .ok a ∧ f a = .error e := by
  constructor
  · intro h
    cases x with
    | ok a => exact Or.inr ⟨a, rfl, h⟩
    | error e' => cases h; exact Or.inl rfl
  · rintro (rfl | ⟨a, rfl, hf⟩)
    · rfl
    · exact hf

@[simp] theorem ok_bind (a : α) (f : α → Exec β) : ((.ok a : Exec α) >>= f) = f a := rfl

@[simp] theorem error_bind (e : Fault) (f : α → Exec β) :
    ((.error e : Exec α) >>= f) = .error e := rfl

@[simp] theorem pure_eq_ok (a : α) : (pure a : Exec α) = .ok a := rfl

theorem ok_of_toOption {x : Exec α} {a : α} (h : x.toOption = some a) : x = .ok a := by
  cases x with
  | ok b => cases h; rfl
  | error e => cases h

instance (x : Exec α) (e : Fault) : Decidable (x = .error e) :=
  match x with
  | .ok _ => isFalse (by simp)
  | .error e' => decidable_of_iff (e' = e) (by simp)

theorem Ensures.ok {Q : α → Prop} {a : α} (h : Q a) : Ensures (.ok a) Q := ⟨a, rfl, h⟩

theorem Ensures.ok_iff {Q : α → Prop} {a : α} : Ensures (.ok a) Q ↔ Q a := by
  refine ⟨?_, Ensures.ok⟩
  rintro ⟨b, hb, hq⟩
  cases hb
  exact hq

theorem Ensures.mono {x : Exec α} {Q R : α → Prop} (h : Ensures x Q) (hQR : ∀ a, Q a → R a) :
    Ensures x R := by
  obtain ⟨a, ha, hq⟩ := h
  exact ⟨a, ha, hQR a hq⟩

theorem Ensures.bind {x : Exec α} {f : α → Exec β} {Q : α → Prop} {R : β → Prop}
    (h : Ensures x Q) (hf : ∀ a, Q a → Ensures (f a) R) : Ensures (x >>= f) R := by
  obtain ⟨a, rfl, hq⟩ := h
  exact hf a hq

/-! ### Arrays -/

/-- `a[i]` -/
def read {n : ℕ} (a : Fin n → α) (i : ℤ) : Exec α :=
  if h : 0 ≤ i ∧ i < n then .ok (a ⟨i.toNat, by omega⟩) else .error .outOfBounds

/-- `a[i] = v` -/
def write {n : ℕ} (a : Fin n → α) (i : ℤ) (v : α) : Exec (Fin n → α) :=
  if h : 0 ≤ i ∧ i < n then .ok (Function.update a ⟨i.toNat, by omega⟩ v)
  else .error .outOfBounds

theorem read_of_lt {n : ℕ} (a : Fin n → α) {i : ℕ} (h : i < n) : read a i = .ok (a ⟨i, h⟩) := by
  rw [read, dif_pos (by omega)]
  simp

theorem read_of_eq {n : ℕ} (a : Fin n → α) {i : ℤ} (k : Fin n) (h : i = (k : ℕ)) :
    read a i = .ok (a k) := by
  subst h
  exact read_of_lt a k.isLt

theorem write_of_eq {n : ℕ} (a : Fin n → α) {i : ℤ} (k : Fin n) (h : i = (k : ℕ)) (v : α) :
    write a i v = .ok (Function.update a k v) := by
  subst h
  rw [write, dif_pos (by omega)]
  simp

theorem read_ok_iff {n : ℕ} {a : Fin n → α} {i : ℤ} {v : α} :
    read a i = .ok v ↔ ∃ k : Fin n, i = (k : ℕ) ∧ v = a k := by
  constructor
  · intro h
    by_cases hi : 0 ≤ i ∧ i < n
    · refine ⟨⟨i.toNat, by omega⟩, by simp [hi.1], ?_⟩
      rw [read, dif_pos hi] at h
      exact (Except.ok.inj h).symm
    · rw [read, dif_neg hi] at h
      cases h
  · rintro ⟨k, hk, rfl⟩
    exact read_of_eq a k hk

theorem write_ok_iff {n : ℕ} {a b : Fin n → α} {i : ℤ} {v : α} :
    write a i v = .ok b ↔ ∃ k : Fin n, i = (k : ℕ) ∧ b = Function.update a k v := by
  constructor
  · intro h
    by_cases hi : 0 ≤ i ∧ i < n
    · refine ⟨⟨i.toNat, by omega⟩, by simp [hi.1], ?_⟩
      rw [write, dif_pos hi] at h
      exact (Except.ok.inj h).symm
    · rw [write, dif_neg hi] at h
      cases h
  · rintro ⟨k, hk, rfl⟩
    exact write_of_eq a k hk v

theorem read_error {n : ℕ} {a : Fin n → α} {i : ℤ} {e : Fault} (h : read a i = .error e) :
    e = .outOfBounds := by
  unfold read at h
  split at h <;> cases h
  rfl

theorem write_error {n : ℕ} {a : Fin n → α} {i : ℤ} {v : α} {e : Fault}
    (h : write a i v = .error e) : e = .outOfBounds := by
  unfold write at h
  split at h <;> cases h
  rfl

/-- `l[i]` of an array whose length is known at run time only. -/
def cell (l : List α) (i : ℕ) : Exec α :=
  match l[i]? with
  | some x => .ok x
  | none => .error .outOfBounds

theorem cell_of_lt {l : List α} {i : ℕ} (h : i < l.length) : cell l i = .ok l[i] := by
  simp [cell, List.getElem?_eq_getElem h]

theorem cell_ok_iff {l : List α} {i : ℕ} {x : α} : cell l i = .ok x ↔ l[i]? = some x := by
  unfold cell
  cases l[i]? <;> simp

/-! ### Loops -/

/-- `for (int i = 0; i < n; i++) s = f(i, s);` -/
def forUpto (n : ℤ) (s : σ) (f : ℕ → σ → Exec σ) : Exec σ :=
  (List.range n.toNat).foldlM (fun s i => f i s) s

/-- The same loop over every index of an array of fixed size. -/
def forAll (n : ℕ) (s : σ) (f : Fin n → σ → Exec σ) : Exec σ :=
  (List.finRange n).foldlM (fun s i => f i s) s

/-- `for (int i = 0; i < n; i++) a[i] = f(i);`, with no cell reading another. -/
def fill : (n : ℕ) → (Fin n → Exec α) → Exec (Fin n → α)
  | 0, _ => pure Fin.elim0
  | n + 1, f => do
    let x ← f 0
    let t ← fill n fun i => f i.succ
    pure (Fin.cons x t)

/-- The loop `for (i = 0; i < n; i++) if (p(i)) break;`: the first index at which `p` holds. -/
def firstFrom (p : ℕ → Exec Bool) : ℕ → ℕ → Exec (Option ℕ)
  | 0, _ => .ok none
  | k + 1, i => do if ← p i then pure (some i) else firstFrom p k (i + 1)

def firstIdx (n : ℤ) (p : ℕ → Exec Bool) : Exec (Option ℕ) := firstFrom p n.toNat 0

/-- Invariant rule for a fold over a list, total version. -/
theorem foldlM_ensures {ι : Type} {f : σ → ι → Exec σ} (I : List ι → σ → Prop) :
    ∀ (l done : List ι) (s : σ), I done s →
      (∀ pre x post t, done ++ l = pre ++ x :: post → I pre t → Ensures (f t x) (I (pre ++ [x]))) →
      Ensures (l.foldlM f s) (I (done ++ l)) := by
  intro l
  induction l with
  | nil =>
    intro done s h0 _
    simpa using Ensures.ok h0
  | cons x l ih =>
    intro done s h0 hstep
    rw [List.foldlM_cons]
    refine (hstep done x l s rfl h0).bind fun t ht => ?_
    have := ih (done ++ [x]) t ht (by simpa using hstep)
    simpa using this

/-- Invariant rule for a fold over a list, partial version. -/
theorem foldlM_ok {ι : Type} {f : σ → ι → Exec σ} (I : List ι → σ → Prop) :
    ∀ (l done : List ι) (s s' : σ), I done s → l.foldlM f s = .ok s' →
      (∀ pre x post t t', done ++ l = pre ++ x :: post → I pre t → f t x = .ok t' →
        I (pre ++ [x]) t') →
      I (done ++ l) s' := by
  intro l
  induction l with
  | nil =>
    intro done s s' h0 h _
    cases h; simpa using h0
  | cons x l ih =>
    intro done s s' h0 h hstep
    rw [List.foldlM_cons, bind_ok_iff] at h
    obtain ⟨t, ht, h⟩ := h
    have := ih (done ++ [x]) t s' (hstep done x l s t rfl h0 ht) h (by simpa using hstep)
    simpa using this

/-- A fold that stops has stopped in one of its rounds. -/
theorem foldlM_error {ι : Type} {f : σ → ι → Exec σ} {e : Fault} : ∀ (l : List ι) {s : σ},
    l.foldlM f s = .error e → ∃ x ∈ l, ∃ t, f t x = .error e := by
  intro l
  induction l with
  | nil =>
    intro _ h
    cases h
  | cons x l ih =>
    intro s h
    rw [List.foldlM_cons, bind_error_iff] at h
    rcases h with h | ⟨t, -, h⟩
    · exact ⟨x, List.mem_cons_self, s, h⟩
    · obtain ⟨y, hy, t', h⟩ := ih h
      exact ⟨y, List.mem_cons_of_mem x hy, t', h⟩

theorem range_split {n i : ℕ} {pre post : List ℕ} (h : List.range n = pre ++ i :: post) :
    pre = List.range i ∧ i < n := by
  have hlen := congrArg List.length h
  simp only [List.length_range, List.length_append, List.length_cons] at hlen
  have hi : (List.range n)[pre.length]? = some i := by rw [h]; simp
  have hpre : pre = (List.range n).take pre.length := by rw [h]; simp
  rw [List.getElem?_range (by omega)] at hi
  cases hi
  refine ⟨?_, by omega⟩
  conv_lhs => rw [hpre, List.take_range]
  rw [Nat.min_eq_left (by omega)]

/-- Invariant rule for the counting loop, total version. -/
theorem forUpto_ensures {n : ℤ} {s : σ} {f : ℕ → σ → Exec σ} (I : ℕ → σ → Prop) (h0 : I 0 s)
    (hstep : ∀ (i : ℕ) t, (i : ℤ) < n → I i t → Ensures (f i t) (I (i + 1))) :
    Ensures (forUpto n s f) (I n.toNat) := by
  have h := foldlM_ensures (f := fun s i => f i s) (fun l t => I l.length t)
    (List.range n.toNat) [] s (by simpa using h0) (by
      intro pre x post t heq hI
      obtain ⟨rfl, hx⟩ := range_split heq
      simpa using hstep x t (by omega) (by simpa using hI))
  simpa [forUpto] using h

/-- Invariant rule for the counting loop, partial version. -/
theorem forUpto_ok {n : ℤ} {s s' : σ} {f : ℕ → σ → Exec σ} (I : ℕ → σ → Prop) (h0 : I 0 s)
    (h : forUpto n s f = .ok s')
    (hstep : ∀ (i : ℕ) t t', (i : ℤ) < n → I i t → f i t = .ok t' → I (i + 1) t') : I n.toNat s' := by
  have h := foldlM_ok (f := fun s i => f i s) (fun l t => I l.length t)
    (List.range n.toNat) [] s s' (by simpa using h0) h (by
      intro pre x post t t' heq hI ht
      obtain ⟨rfl, hx⟩ := range_split heq
      simpa using hstep x t t' (by omega) (by simpa using hI) ht)
  simpa using h

/-- Each round of a loop that returns has returned. -/
theorem forUpto_round {n : ℤ} {s s' : σ} {f : ℕ → σ → Exec σ} (h : forUpto n s f = .ok s') (i : ℕ)
    (hi : (i : ℤ) < n) : ∃ t t', f i t = .ok t' := by
  have := forUpto_ok (fun k _ => i < k → ∃ t t', f i t = .ok t') (by omega) h (by
    intro k t t' _ hI ht hik
    rcases Nat.lt_succ_iff_lt_or_eq.mp hik with hlt | rfl
    · exact hI hlt
    · exact ⟨t, t', ht⟩)
  exact this (by omega)

/-- Invariant rule for the loop over a whole array, total version. -/
theorem forAll_ensures {n : ℕ} {s : σ} {f : Fin n → σ → Exec σ} (I : ℕ → σ → Prop) (h0 : I 0 s)
    (hstep : ∀ (i : Fin n) t, I i t → Ensures (f i t) (I (i + 1))) : Ensures (forAll n s f) (I n) := by
  have h := foldlM_ensures (f := fun s i => f i s) (fun l t => I l.length t)
    (List.finRange n) [] s (by simpa using h0) (by
      intro pre x post t heq hI
      have hx : (x : ℕ) = pre.length := by
        have hl := congrArg List.length heq
        simp only [List.nil_append, List.length_finRange, List.length_append,
          List.length_cons] at hl
        have hg : (List.finRange n)[pre.length]? = some x := by
          rw [← List.nil_append (List.finRange n), heq]; simp
        rw [List.getElem?_eq_getElem (by simp; omega)] at hg
        simp only [List.getElem_finRange, Option.some.injEq] at hg
        rw [← hg]; rfl
      rw [← hx] at hI
      simpa [hx] using hstep x t hI)
  simpa [forAll] using h

/-- An array filled cell by cell succeeds exactly with the array of its cells. -/
theorem fill_ok_iff : ∀ {n : ℕ} {f : Fin n → Exec α} {t : Fin n → α},
    fill n f = .ok t ↔ ∀ i, f i = .ok (t i) := by
  intro n
  induction n with
  | zero =>
    intro f t
    refine ⟨fun _ i => i.elim0, fun _ => ?_⟩
    rw [fill, show (Fin.elim0 : Fin 0 → α) = t from funext fun i => i.elim0]
    rfl
  | succ n ih =>
    intro f t
    rw [fill, bind_ok_iff, Fin.forall_fin_succ]
    constructor
    · rintro ⟨x, hx, h⟩
      obtain ⟨u, hu, h⟩ := bind_ok_iff.mp h
      cases h
      exact ⟨hx, fun i => ih.mp hu i⟩
    · rintro ⟨h0, hs⟩
      refine ⟨t 0, h0, ?_⟩
      rw [ih (f := fun i => f i.succ) (t := fun i => t i.succ) |>.mpr hs, ok_bind]
      exact congrArg Except.ok (Fin.cons_self_tail t)

theorem firstFrom_some {p : ℕ → Exec Bool} : ∀ {k i j : ℕ}, firstFrom p k i = .ok (some j) →
    i ≤ j ∧ j < i + k ∧ p j = .ok true ∧ ∀ m, i ≤ m → m < j → p m = .ok false := by
  intro k
  induction k with
  | zero =>
    intro _ _ h
    cases h
  | succ k ih =>
    intro i j h
    rw [firstFrom, bind_ok_iff] at h
    obtain ⟨b, hb, h⟩ := h
    cases b with
    | true => cases h; exact ⟨le_rfl, by omega, hb, by omega⟩
    | false =>
      obtain ⟨h1, h2, h3, h4⟩ := ih h
      refine ⟨by omega, by omega, h3, fun m hm hmj => ?_⟩
      rcases Nat.eq_or_lt_of_le hm with rfl | hlt
      · exact hb
      · exact h4 m hlt hmj

theorem firstFrom_none {p : ℕ → Exec Bool} : ∀ {k i : ℕ}, firstFrom p k i = .ok none →
    ∀ m, i ≤ m → m < i + k → p m = .ok false := by
  intro k
  induction k with
  | zero =>
    intro _ _
    omega
  | succ k ih =>
    intro i h
    rw [firstFrom, bind_ok_iff] at h
    obtain ⟨b, hb, h⟩ := h
    cases b with
    | true => cases h
    | false =>
      intro m hm hmk
      rcases Nat.eq_or_lt_of_le hm with rfl | hlt
      · exact hb
      · exact ih h m hlt (by omega)

theorem firstIdx_some {n : ℤ} {p : ℕ → Exec Bool} {j : ℕ} (h : firstIdx n p = .ok (some j)) :
    (j : ℤ) < n ∧ p j = .ok true ∧ ∀ m < j, p m = .ok false := by
  obtain ⟨-, h2, h3, h4⟩ := firstFrom_some h
  exact ⟨by omega, h3, fun m hm => h4 m (by omega) hm⟩

theorem firstFrom_eq_some {p : ℕ → Exec Bool} : ∀ {k i j : ℕ}, i ≤ j → j < i + k → p j = .ok true →
    (∀ m, i ≤ m → m < j → p m = .ok false) → firstFrom p k i = .ok (some j) := by
  intro k
  induction k with
  | zero =>
    intro i j h1 h2 _ _
    exact absurd h2 (by omega)
  | succ k ih =>
    intro i j h1 h2 hj hbefore
    rcases Nat.eq_or_lt_of_le h1 with rfl | hlt
    · rw [firstFrom, hj]; rfl
    · rw [firstFrom, hbefore i le_rfl hlt, ok_bind]
      exact ih hlt (by omega) hj fun m hm hmj => hbefore m (by omega) hmj

theorem firstIdx_eq_some {n : ℤ} {p : ℕ → Exec Bool} {j : ℕ} (hj : (j : ℤ) < n)
    (hit : p j = .ok true) (hbefore : ∀ m < j, p m = .ok false) : firstIdx n p = .ok (some j) :=
  firstFrom_eq_some (by omega) (by omega) hit fun m _ hm => hbefore m hm

theorem firstIdx_none {n : ℤ} {p : ℕ → Exec Bool} (h : firstIdx n p = .ok none) :
    ∀ m : ℕ, (m : ℤ) < n → p m = .ok false :=
  fun m hm => firstFrom_none h m (by omega) (by omega)

theorem firstFrom_ensures {p : ℕ → Exec Bool} : ∀ {k i : ℕ},
    (∀ m, i ≤ m → m < i + k → ∃ b, p m = .ok b) → ∃ r, firstFrom p k i = .ok r := by
  intro k
  induction k with
  | zero =>
    intro _ _
    exact ⟨none, rfl⟩
  | succ k ih =>
    intro i hp
    obtain ⟨b, hb⟩ := hp i le_rfl (by omega)
    rw [firstFrom, hb, ok_bind]
    cases b with
    | true => exact ⟨some i, rfl⟩
    | false => exact ih fun m hm hmk => hp m (by omega) (by omega)

/-- A search whose probes all return does return. -/
theorem firstIdx_ensures {n : ℤ} {p : ℕ → Exec Bool}
    (hp : ∀ m : ℕ, (m : ℤ) < n → ∃ b, p m = .ok b) : ∃ r, firstIdx n p = .ok r :=
  firstFrom_ensures fun m _ hm => hp m (by omega)

/-- A search succeeds when some probe does and all earlier ones return. -/
theorem firstIdx_hit {n : ℤ} {p : ℕ → Exec Bool} {k : ℕ} (hk : (k : ℤ) < n)
    (hp : ∀ m : ℕ, (m : ℤ) < n → ∃ b, p m = .ok b) (hit : p k = .ok true) :
    ∃ j, firstIdx n p = .ok (some j) := by
  obtain ⟨r, hr⟩ := firstIdx_ensures hp
  cases r with
  | some j => exact ⟨j, hr⟩
  | none =>
    have := firstIdx_none hr k hk
    rw [hit] at this
    cases this

/-! ### Ruling out one fault -/

/-- `x` does not stop in `e`, and if it returns, its value satisfies `Q`. -/
def Avoids (e : Fault) (x : Exec α) (Q : α → Prop) : Prop := x ≠ .error e ∧ ∀ a, x = .ok a → Q a

section Avoids
variable {e : Fault} {Q R : α → Prop}

theorem Avoids.ok {a : α} (h : Q a) : Avoids e (.ok a) Q := by
  refine ⟨by simp, fun a' ha => ?_⟩
  cases ha
  exact h

theorem Avoids.error {e' : Fault} (h : e' ≠ e) : Avoids e (.error e') Q :=
  ⟨by simp [h], fun _ ha => by cases ha⟩

theorem Ensures.avoids {x : Exec α} (h : Ensures x Q) : Avoids e x Q := by
  obtain ⟨a, rfl, hq⟩ := h
  exact Avoids.ok hq

theorem Avoids.mono {x : Exec α} (h : Avoids e x Q) (hQR : ∀ a, Q a → R a) : Avoids e x R :=
  ⟨h.1, fun a ha => hQR a (h.2 a ha)⟩

theorem Avoids.bind {x : Exec α} {f : α → Exec β} {R : β → Prop} (h : Avoids e x Q)
    (hf : ∀ a, Q a → Avoids e (f a) R) : Avoids e (x >>= f) R := by
  cases x with
  | ok a => exact hf a (h.2 a rfl)
  | error e' => exact Avoids.error fun he => h.1 (by rw [he])

theorem avoids_map_iff {x : Exec α} {f : α → β} {R : β → Prop} :
    Avoids e (x >>= fun a => pure (f a)) R ↔ Avoids e x fun a => R (f a) := by
  cases x with
  | ok a => exact ⟨fun h => Avoids.ok (h.2 _ rfl), fun h => Avoids.ok (h.2 a rfl)⟩
  | error e' =>
    constructor <;> intro h
    · exact Avoids.error fun he => h.1 (by rw [he]; rfl)
    · exact Avoids.error fun he => h.1 (by rw [he])

theorem foldlM_avoids {ι : Type} {f : σ → ι → Exec σ} {I : σ → Prop} : ∀ (l : List ι) {s : σ}, I s →
    (∀ x ∈ l, ∀ t, I t → Avoids e (f t x) I) → Avoids e (l.foldlM f s) I := by
  intro l
  induction l with
  | nil =>
    intro _ h0 _
    exact Avoids.ok h0
  | cons x l ih =>
    intro s h0 hstep
    rw [List.foldlM_cons]
    refine (hstep x List.mem_cons_self s h0).bind fun t ht => ?_
    exact ih ht fun y hy => hstep y (List.mem_cons_of_mem x hy)

theorem forUpto_avoids {n : ℤ} {s : σ} {f : ℕ → σ → Exec σ} {I : σ → Prop} (h0 : I s)
    (hstep : ∀ i : ℕ, (i : ℤ) < n → ∀ t, I t → Avoids e (f i t) I) : Avoids e (forUpto n s f) I :=
  foldlM_avoids _ h0 fun i hi => hstep i (by have := List.mem_range.mp hi; omega)

theorem forAll_avoids {n : ℕ} {s : σ} {f : Fin n → σ → Exec σ} {I : σ → Prop} (h0 : I s)
    (hstep : ∀ i t, I t → Avoids e (f i t) I) : Avoids e (forAll n s f) I :=
  foldlM_avoids _ h0 fun i _ => hstep i

theorem fill_avoids : ∀ {n : ℕ} {f : Fin n → Exec α}, (∀ i, Avoids e (f i) fun _ => True) →
    Avoids e (fill n f) fun _ => True := by
  intro n
  induction n with
  | zero =>
    intro _ _
    exact Avoids.ok trivial
  | succ n ih =>
    intro f h
    rw [fill]
    refine (h 0).bind fun _ _ => ?_
    exact (ih fun i => h i.succ).bind fun _ _ => Avoids.ok trivial

theorem firstFrom_avoids {p : ℕ → Exec Bool} : ∀ {k i : ℕ},
    (∀ m, i ≤ m → m < i + k → Avoids e (p m) fun _ => True) →
    Avoids e (firstFrom p k i) fun _ => True := by
  intro k
  induction k with
  | zero =>
    intro _ _
    exact Avoids.ok trivial
  | succ k ih =>
    intro i hp
    rw [firstFrom]
    refine (hp i le_rfl (by omega)).bind fun b _ => ?_
    cases b with
    | true => exact Avoids.ok trivial
    | false => exact ih fun m hm hmk => hp m (by omega) (by omega)

/-- A search whose probes avoid the fault, and which ends within its range. -/
theorem firstIdx_avoids {n : ℤ} {p : ℕ → Exec Bool}
    (hp : ∀ m : ℕ, (m : ℤ) < n → Avoids e (p m) fun _ => True) :
    Avoids e (firstIdx n p) fun r => ∀ i, r = some i → (i : ℤ) < n := by
  refine ⟨(firstFrom_avoids fun m _ hm => hp m (by omega)).1, ?_⟩
  rintro _ hr i rfl
  exact (firstIdx_some hr).1

end Avoids

/-- A search over the cells of a list. -/
def firstCell (p : α → Exec Bool) : List α → Exec (Option ℕ)
  | [] => .ok none
  | x :: l => do if ← p x then pure (some 0) else pure ((← firstCell p l).map (· + 1))

theorem firstCell_hit {p : α → Exec Bool} {x : α} (h : p x = .ok true) (l : List α) :
    firstCell p (x :: l) = .ok (some 0) := by
  rw [firstCell, h]
  rfl

theorem firstCell_miss {p : α → Exec Bool} {x : α} (h : p x = .ok false) (l : List α) :
    firstCell p (x :: l) = firstCell p l >>= fun r => pure (r.map (· + 1)) := by
  rw [firstCell, h]
  rfl

theorem firstFrom_succ {p : ℕ → Exec Bool} : ∀ {k i : ℕ},
    firstFrom p k (i + 1) = firstFrom (fun j => p (j + 1)) k i >>= fun r => pure (r.map (· + 1)) := by
  intro k
  induction k with
  | zero =>
    intro _
    rfl
  | succ k ih =>
    intro i
    rw [firstFrom, firstFrom]
    cases p (i + 1) with
    | error e => rfl
    | ok b =>
      cases b with
      | true => rfl
      | false => exact ih

/-- The loop over the indices of a list is the search over its cells. -/
theorem firstIdx_cell (p : α → Exec Bool) : ∀ l : List α,
    firstIdx l.length (fun i => do p (← cell l i)) = firstCell p l := by
  intro l
  induction l with
  | nil => rfl
  | cons x l ih =>
    unfold firstIdx at ih ⊢
    rw [Int.toNat_natCast] at ih ⊢
    rw [List.length_cons, firstFrom, firstFrom_succ, firstCell, ← ih]
    rfl

/-- The first index of an array at which `p` holds. -/
theorem find_finRange_eq_some {n : ℕ} {p : Fin n → Bool} {i : Fin n} :
    (List.finRange n).find? p = some i ↔ p i = true ∧ ∀ j < i, p j = false := by
  rw [List.find?_eq_some_iff_getElem]
  refine and_congr_right fun _ => ⟨?_, fun h => ⟨i, by simp, by simp, fun j hj => ?_⟩⟩
  · rintro ⟨k, hk, rfl, h⟩ j hj
    simpa using h j (by simpa [Fin.lt_def] using hj)
  · simpa using h ⟨j, by omega⟩ (Fin.mk_lt_of_lt_val hj)

end Checked
