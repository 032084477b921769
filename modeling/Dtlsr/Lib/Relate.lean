import Dtlsr.Lib.Checked

/-!
    Two executions side by side. `Relates R x y` says that both return, with values related by `R`, or
    that both stop in the same fault; its rules follow the code, so that what holds of two runs is
    proved as one walks through the program. -/

namespace Checked

variable {α β γ δ σ τ : Type}

/-- Both return, with related values, or both stop in the same fault. -/
def Relates (R : α → β → Prop) : Exec α → Exec β → Prop
  | .ok a, .ok b => R a b
  | .error e, .error e' => e = e'
  | _, _ => False

variable {R : α → β → Prop} {Q : γ → δ → Prop} {x : Exec α} {y : Exec β}

theorem Relates.of_eq {x y : Exec α} (h : x = y) : Relates Eq x y := by
  subst h
  cases x <;> rfl

theorem Relates.mono {R' : α → β → Prop} (h : Relates R x y) (hR : ∀ a b, R a b → R' a b) :
    Relates R' x y := by
  cases x with
  | ok a =>
    cases y with
    | ok b => exact hR a b h
    | error e => exact h
  | error e =>
    cases y with
    | ok b => exact h
    | error e' => exact h

theorem Relates.of_pure {a : α} {b : β} (h : R a b) : Relates R (pure a) (pure b) := h

theorem Relates.bind {f : α → Exec γ} {g : β → Exec δ} (h : Relates R x y)
    (hf : ∀ a b, R a b → Relates Q (f a) (g b)) : Relates Q (x >>= f) (y >>= g) := by
  cases x with
  | ok a =>
    cases y with
    | ok b => exact hf a b h
    | error e => cases h
  | error e =>
    cases y with
    | ok b => cases h
    | error e' => exact h

/-- The two go on from one result. -/
theorem Relates.bind_same {x : Exec α} {f : α → Exec γ} {g : α → Exec δ}
    (hf : ∀ a, Relates Q (f a) (g a)) : Relates Q (x >>= f) (x >>= g) := by
  cases x with
  | ok a => exact hf a
  | error e => rfl

/-- The two take the same branch. -/
theorem Relates.ite {c : Prop} [Decidable c] {x' : Exec α} {y' : Exec β} (hthen : c → Relates R x y)
    (helse : ¬c → Relates R x' y') : Relates R (if c then x else x') (if c then y else y') := by
  split
  · rename_i hc
    exact hthen hc
  · rename_i hc
    exact helse hc

theorem Relates.ok_left {a : α} (h : Relates R (.ok a) y) : ∃ b, y = .ok b ∧ R a b := by
  cases y with
  | ok b => exact ⟨b, rfl, h⟩
  | error e => cases h

theorem Relates.ok_right {b : β} (h : Relates R x (.ok b)) : ∃ a, x = .ok a ∧ R a b := by
  cases x with
  | ok a => exact ⟨a, rfl, h⟩
  | error e => cases h

theorem Relates.eq {x y : Exec α} (h : Relates Eq x y) : x = y := by
  cases x with
  | ok a =>
    cases y with
    | ok b => exact congrArg _ h
    | error e => cases h
  | error e =>
    cases y with
    | ok b => cases h
    | error e' => exact congrArg _ h

theorem Relates.ok_both {a : α} {b : β} (h : Relates R x y) (hx : x = .ok a) (hy : y = .ok b) :
    R a b := by
  subst hx hy
  exact h

/-! ### Arrays -/

section Arrays
variable {n : ℕ}

/-- A read through one index finds the same cell of both arrays. -/
theorem Relates.read {a : Fin n → α} {b : Fin n → β} {i : ℤ} {f : α → Exec γ} {g : β → Exec δ}
    (h : ∀ k : Fin n, i = (k : ℕ) → Relates Q (f (a k)) (g (b k))) :
    Relates Q (Checked.read a i >>= f) (Checked.read b i >>= g) := by
  by_cases hi : 0 ≤ i ∧ i < n
  · have hk : i = ((⟨i.toNat, by omega⟩ : Fin n) : ℕ) := by simp [hi.1]
    rw [read_of_eq a _ hk, read_of_eq b _ hk]
    exact h _ hk
  · rw [Checked.read, Checked.read, dif_neg hi, dif_neg hi]
    rfl

theorem Relates.write {a : Fin n → α} {b : Fin n → β} {i : ℤ} {x : α} {y : β}
    {f : (Fin n → α) → Exec γ} {g : (Fin n → β) → Exec δ}
    (h : ∀ k : Fin n, i = (k : ℕ) →
      Relates Q (f (Function.update a k x)) (g (Function.update b k y))) :
    Relates Q (Checked.write a i x >>= f) (Checked.write b i y >>= g) := by
  by_cases hi : 0 ≤ i ∧ i < n
  · have hk : i = ((⟨i.toNat, by omega⟩ : Fin n) : ℕ) := by simp [hi.1]
    rw [write_of_eq a _ hk, write_of_eq b _ hk]
    exact h _ hk
  · rw [Checked.write, Checked.write, dif_neg hi, dif_neg hi]
    rfl

theorem read_congr {a b : Fin n → α} {i : ℕ} (h : ∀ k : Fin n, (k : ℕ) = i → a k = b k) :
    read a i = read b i := by
  by_cases hi : i < n
  · rw [read_of_lt a hi, read_of_lt b hi, h ⟨i, hi⟩ rfl]
  · rw [read, read, dif_neg (by omega), dif_neg (by omega)]

/-- Arrays stay related entry by entry when related values are written to one index. -/
theorem forall_update {P : Fin n → α → β → Prop} {a : Fin n → α} {b : Fin n → β} {k : Fin n} {x : α}
    {y : β} (h : ∀ j, P j (a j) (b j)) (hk : P k x y) (j : Fin n) :
    P j (Function.update a k x j) (Function.update b k y j) := by
  rcases eq_or_ne j k with rfl | hj
  · rw [Function.update_self, Function.update_self]
    exact hk
  · rw [Function.update_of_ne hj, Function.update_of_ne hj]
    exact h j

end Arrays

/-! ### Loops -/

theorem foldlM_relates {ι : Type} {R : σ → τ → Prop} {f : σ → ι → Exec σ} {g : τ → ι → Exec τ} :
    ∀ {l : List ι} {s : σ} {t : τ}, R s t →
      (∀ i ∈ l, ∀ s t, R s t → Relates R (f s i) (g t i)) → Relates R (l.foldlM f s) (l.foldlM g t) := by
  intro l
  induction l with
  | nil =>
    intro _ _ h _
    exact h
  | cons i l ih =>
    intro s t h hstep
    rw [List.foldlM_cons, List.foldlM_cons]
    refine (hstep i List.mem_cons_self s t h).bind fun s' t' h' => ?_
    exact ih h' fun j hj => hstep j (List.mem_cons_of_mem i hj)

theorem forUpto_relates {R : σ → τ → Prop} {n : ℤ} {s : σ} {t : τ} {f : ℕ → σ → Exec σ}
    {g : ℕ → τ → Exec τ} (h : R s t)
    (hstep : ∀ i : ℕ, (i : ℤ) < n → ∀ s t, R s t → Relates R (f i s) (g i t)) :
    Relates R (forUpto n s f) (forUpto n t g) := by
  refine foldlM_relates h fun i hi => hstep i ?_
  rw [List.mem_range] at hi
  omega

/-- The two loops side by side, where the relation depends on the rounds done. -/
theorem forUpto_relates_at {I : ℕ → σ → τ → Prop} {n : ℤ} {s : σ} {t : τ} {f : ℕ → σ → Exec σ}
    {g : ℕ → τ → Exec τ} (h : I 0 s t)
    (hstep : ∀ i : ℕ, (i : ℤ) < n → ∀ s t, I i s t → Relates (I (i + 1)) (f i s) (g i t)) :
    Relates (I n.toNat) (forUpto n s f) (forUpto n t g) := by
  suffices hloop : ∀ k i : ℕ, (i + k : ℤ) ≤ n → ∀ s t, I i s t →
      Relates (I (i + k)) ((List.range' i k).foldlM (fun s i => f i s) s)
        ((List.range' i k).foldlM (fun t i => g i t) t) by
    rcases Int.le_total 0 n with hn | hn
    · have := hloop n.toNat 0 (by omega) s t h
      rwa [Nat.zero_add, ← List.range_eq_range'] at this
    · have hzero : n.toNat = 0 := by omega
      rw [forUpto, forUpto, hzero]
      exact h
  intro k
  induction k with
  | zero =>
    intro i _ s t h
    exact h
  | succ k ih =>
    intro i hi s t h
    rw [List.range'_succ, List.foldlM_cons, List.foldlM_cons]
    refine (hstep i (by omega) s t h).bind fun s' t' h' => ?_
    rw [show i + (k + 1) = i + 1 + k by omega]
    exact ih (i + 1) (by omega) s' t' h'

theorem fill_relates : ∀ {n : ℕ} {P : Fin n → α → β → Prop} {f : Fin n → Exec α}
    {g : Fin n → Exec β}, (∀ i, Relates (P i) (f i) (g i)) →
      Relates (fun a b => ∀ i, P i (a i) (b i)) (fill n f) (fill n g) := by
  intro n
  induction n with
  | zero =>
    intro _ _ _ _
    exact fun i => i.elim0
  | succ n ih =>
    intro P f g h
    rw [fill, fill]
    refine (h 0).bind fun x y hxy => ?_
    refine (ih fun i => h i.succ).bind fun a b hab => ?_
    exact Fin.cases hxy hab

theorem firstFrom_congr {p q : ℕ → Exec Bool} : ∀ {k i : ℕ}, (∀ m, m < i + k → p m = q m) →
    firstFrom p k i = firstFrom q k i := by
  intro k
  induction k with
  | zero =>
    intro _ _
    rfl
  | succ k ih =>
    intro i h
    rw [firstFrom, firstFrom, h i (by omega),
      ih fun m hm => h m (by omega)]

theorem firstIdx_congr {n : ℤ} {p q : ℕ → Exec Bool} (h : ∀ m : ℕ, (m : ℤ) < n → p m = q m) :
    firstIdx n p = firstIdx n q :=
  firstFrom_congr fun m hm => h m (by omega)

end Checked
