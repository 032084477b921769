import Mathlib.Data.List.Destutter
import Mathlib.Data.List.Infix
import Mathlib.Data.Finset.Sort
import Mathlib.Order.Basic

/-!
    A register that keeps the newest version of a value but ignores a newer version with the content
    it already holds, *stamp included*. Content is compared by an equivalence `R`, versions are ordered
    by a stamp `t`. The two main results say exactly when such a register still ends with the content
    of the newest version: whatever the order of arrival (`newest_wins_iff`), and after every arrival
    of a stream taken in order (`in_order_iff`). -/

namespace Register

variable {α τ : Type} [LinearOrder τ]

section Offer
variable (R : α → α → Prop) [DecidableRel R] (t : α → τ)

/-- One version arrives. -/
def offer (s x : α) : α := if t s < t x ∧ ¬R s x then x else s

variable {R t}

theorem offer_same {s x : α} (h : R s x) : offer R t s x = s := if_neg fun hc => hc.2 h

theorem offer_older {s x : α} (h : t x ≤ t s) : offer R t s x = s :=
  if_neg fun hc => absurd hc.1 (not_lt.mpr h)

theorem offer_newer {s x : α} (ht : t s < t x) (h : ¬R s x) : offer R t s x = x := if_pos ⟨ht, h⟩

theorem offer_choice (s x : α) : offer R t s x = s ∨ offer R t s x = x := by
  unfold offer
  split
  · exact Or.inr rfl
  · exact Or.inl rfl

/-- Offering only versions of the held content changes nothing. -/
theorem foldl_offer_same {s : α} : ∀ {l : List α}, (∀ x ∈ l, R s x) → l.foldl (offer R t) s = s := by
  intro l
  induction l with
  | nil =>
    intro _
    rfl
  | cons x l ih =>
    intro h
    rw [List.foldl_cons, offer_same (h x List.mem_cons_self)]
    exact ih fun y hy => h y (List.mem_cons_of_mem _ hy)

/-- A property of versions that the held one has, and every offered one, is never lost. -/
theorem foldl_offer_induct {P : α → Prop} : ∀ {l : List α} {s : α}, P s → (∀ x ∈ l, P x) →
    P (l.foldl (offer R t) s) := by
  intro l
  induction l with
  | nil =>
    intro _ hs _
    exact hs
  | cons x l ih =>
    intro s hs h
    rw [List.foldl_cons]
    refine ih ?_ fun y hy => h y (List.mem_cons_of_mem _ hy)
    rcases offer_choice (R := R) (t := t) s x with hc | hc <;> rw [hc]
    · exact hs
    · exact h x List.mem_cons_self

end Offer

/-! ### Arrival in any order -/

section AnyOrder
variable {R : α → α → Prop} [DecidableRel R] {t : α → τ} (hR : Equivalence R)

/-- `l` delivers each version of `S` at least once, and nothing else. -/
structure Delivers (l S : List α) : Prop where
  sub : ∀ x ∈ l, x ∈ S
  all : ∀ x ∈ S, x ∈ l

/-- Every version with the content of `m` is newer than every version with another content. -/
def Ahead (R : α → α → Prop) (t : α → τ) (S : List α) (m : α) : Prop :=
  ∀ a ∈ S, ∀ b ∈ S, R a m → ¬R b m → t b < t a

include hR

/-- Once the register has the content of `m` it keeps it, and a version of it installs it. -/
theorem offer_ahead {S : List α} {m s x : α} (hA : Ahead R t S m) (hs : s ∈ S) (hx : x ∈ S)
    (h : R s m ∨ R x m) : R (offer R t s x) m := by
  by_cases hsm : R s m
  · by_cases hxm : R x m
    · rwa [offer_same (hR.trans hsm (hR.symm hxm))]
    · rwa [offer_older (hA s hs x hx hsm hxm).le]
  · have hxm := h.resolve_left hsm
    rwa [offer_newer (hA x hx s hs hxm hsm) fun hsx => hsm (hR.trans hsx hxm)]

theorem foldl_offer_ahead {S : List α} {m : α} (hA : Ahead R t S m) : ∀ {l : List α} {s : α},
    s ∈ S → (∀ x ∈ l, x ∈ S) → (R s m ∨ ∃ x ∈ l, R x m) → R (l.foldl (offer R t) s) m := by
  intro l
  induction l with
  | nil =>
    intro s _ _ h
    simpa using h
  | cons x l ih =>
    intro s hs hl h
    rw [List.foldl_cons]
    have hx := hl x List.mem_cons_self
    refine ih ?_ (fun y hy => hl y (List.mem_cons_of_mem _ hy)) ?_
    · rcases offer_choice (R := R) (t := t) s x with hc | hc <;> rw [hc]
      · exact hs
      · exact hx
    · by_cases hnow : R s m ∨ R x m
      · exact Or.inl (offer_ahead hR hA hs hx hnow)
      · refine Or.inr ?_
        obtain ⟨y, hy, hym⟩ := h.resolve_left fun h => hnow (Or.inl h)
        rcases List.mem_cons.mp hy with rfl | hy
        · exact absurd (Or.inr hym) hnow
        · exact ⟨y, hy, hym⟩

/-- Where `a` has the content of `m` and `b`, newer than `a`, does not: deliver `a`, then the rest of
    that content, then the rest, and `b` last. The register misses `m`. -/
theorem exists_bad_delivery [DecidableEq α] {S : List α} {m a b : α} (hinj : ∀ x ∈ S, ∀ y ∈ S,
    t x = t y → x = y) (ha : a ∈ S) (hb : b ∈ S) (ham : R a m) (hbm : ¬R b m) (hab : t a < t b)
    (hlast : ∀ x ∈ S, ¬R x m → t x ≤ t b) :
    ∃ l, Delivers (a :: l) S ∧ ¬R (l.foldl (offer R t) a) m := by
  let same := S.filter fun x => R x m
  let other := S.filter fun x => ¬R x m ∧ x ≠ b
  refine ⟨same ++ (other ++ [b]), ⟨?_, ?_⟩, ?_⟩
  · intro x hx
    simp only [List.mem_cons, List.mem_append, List.not_mem_nil, or_false, same, other,
      List.mem_filter] at hx
    rcases hx with rfl | hx | hx | rfl
    · exact ha
    · exact hx.1
    · exact hx.1
    · exact hb
  · intro x hx
    simp only [List.mem_cons, List.mem_append, List.not_mem_nil, or_false, same, other,
      List.mem_filter, decide_eq_true_eq]
    by_cases hxm : R x m
    · exact Or.inr (Or.inl ⟨hx, hxm⟩)
    · by_cases hxb : x = b
      · exact Or.inr (Or.inr (Or.inr hxb))
      · exact Or.inr (Or.inr (Or.inl ⟨hx, hxm, hxb⟩))
  · have hsame : same.foldl (offer R t) a = a := by
      refine foldl_offer_same fun x hx => ?_
      simp only [same, List.mem_filter, decide_eq_true_eq] at hx
      exact hR.trans ham (hR.symm hx.2)
    rw [List.foldl_append, hsame, List.foldl_append, List.foldl_cons, List.foldl_nil]
    -- just before `b` the register is older than `b`, and still holds `a` or has lost the content
    obtain ⟨hlt, hs⟩ : t (other.foldl (offer R t) a) < t b ∧
        (other.foldl (offer R t) a = a ∨ ¬R (other.foldl (offer R t) a) m) := by
      refine foldl_offer_induct (P := fun s => t s < t b ∧ (s = a ∨ ¬R s m)) ⟨hab, Or.inl rfl⟩ ?_
      intro x hx
      simp only [other, List.mem_filter, decide_eq_true_eq] at hx
      exact ⟨lt_of_le_of_ne (hlast x hx.1 hx.2.1) fun h => hx.2.2 (hinj x hx.1 b hb h),
        Or.inr hx.2.1⟩
    by_cases hsb : R (other.foldl (offer R t) a) b
    · rw [offer_same hsb]
      exact fun h => hbm (hR.trans (hR.symm hsb) h)
    · rwa [offer_newer hlt hsb]

/-- The register ends with the content of the newest version `m` under every order of arrival exactly
    when every version with that content is newer than every version with another one. -/
theorem newest_wins_iff [DecidableEq α] {S : List α} {m : α}
    (hinj : ∀ x ∈ S, ∀ y ∈ S, t x = t y → x = y) (hm : m ∈ S) :
    (∀ x l, Delivers (x :: l) S → R (l.foldl (offer R t) x) m) ↔ Ahead R t S m := by
  constructor
  · intro hall
    by_contra hA
    simp only [Ahead, not_forall, not_lt] at hA
    obtain ⟨a, ha, b, hb, ham, hbm, hab⟩ := hA
    have hne : (S.toFinset.filter fun x => ¬R x m).Nonempty :=
      ⟨b, by simpa using ⟨hb, hbm⟩⟩
    obtain ⟨c, hc, hmax⟩ := Finset.exists_max_image _ t hne
    simp only [Finset.mem_filter, List.mem_toFinset] at hc hmax
    have hbc := hmax b ⟨hb, hbm⟩
    have hlt : t a < t c := by
      refine lt_of_le_of_ne (hab.trans hbc) fun h => hc.2 ?_
      rw [← hinj a ha c hc.1 h]
      exact ham
    obtain ⟨l, hl, hbad⟩ := exists_bad_delivery hR hinj ha hc.1 ham hc.2 hlt
      fun x hx hxm => hmax x ⟨hx, hxm⟩
    exact hbad (hall a l hl)
  · intro hA x l hl
    refine foldl_offer_ahead hR hA (hl.sub x List.mem_cons_self)
      (fun y hy => hl.sub y (List.mem_cons_of_mem _ hy)) ?_
    rcases List.mem_cons.mp (hl.all m hm) with rfl | hml
    · exact Or.inl (hR.refl _)
    · exact Or.inr ⟨m, hml, hR.refl _⟩

end AnyOrder

/-! ### Arrival in order -/

section InOrder
variable {R : α → α → Prop} [DecidableRel R] {t : α → τ}

theorem isChain_cons_destutter' {S : α → α → Prop} (s b : α) (l : List α) :
    (s :: l.destutter' (fun a b => ¬R a b) b).IsChain S ↔
      S s b ∧ (l.destutter' (fun a b => ¬R a b) b).IsChain S := by
  obtain ⟨m, hm⟩ : ∃ m, l.destutter' (fun a b => ¬R a b) b = b :: m := by
    induction l generalizing b with
    | nil => exact ⟨[], rfl⟩
    | cons c l ih =>
      by_cases hbc : R b c
      · rw [List.destutter'_cons_neg _ (not_not.mpr hbc)]; exact ih b
      · rw [List.destutter'_cons_pos _ hbc]; exact ⟨_, rfl⟩
  rw [hm, List.isChain_cons_cons]

/-- From a held version `s`: the register follows a stream, showing after each arrival the content of
    the version that just arrived, exactly when each change of content carries a newer stamp than the
    change before it. -/
theorem in_order_iff (hR : Equivalence R) : ∀ (l : List α) (s : α),
    (∀ p x, p ++ [x] <+: l → R ((p ++ [x]).foldl (offer R t) s) x) ↔
      (l.destutter' (fun a b => ¬R a b) s).IsChain (fun a b => t a < t b) := by
  intro l
  induction l with
  | nil =>
    intro s
    simp
  | cons b l ih =>
    intro s
    have hsplit : (∀ p x, p ++ [x] <+: b :: l → R ((p ++ [x]).foldl (offer R t) s) x) ↔
        R (offer R t s b) b ∧
          ∀ p x, p ++ [x] <+: l → R ((p ++ [x]).foldl (offer R t) (offer R t s b)) x := by
      constructor
      · intro h
        refine ⟨h [] b (by simp), fun p x hp => ?_⟩
        exact h (b :: p) x (by simpa using hp)
      · rintro ⟨hb, h⟩ p x hp
        cases p with
        | nil =>
          obtain rfl : x = b := by simpa using hp
          exact hb
        | cons c p =>
          obtain ⟨rfl, hp'⟩ : c = b ∧ p ++ [x] <+: l := by simpa using hp
          exact h p x hp'
    rw [hsplit, ih]
    by_cases hsb : R s b
    · rw [offer_same hsb, List.destutter'_cons_neg _ (not_not.mpr hsb)]
      simp [hsb]
    · rw [List.destutter'_cons_pos _ hsb, isChain_cons_destutter']
      by_cases hlt : t s < t b
      · rw [offer_newer hlt hsb]
        simp [hlt, hR.refl b]
      · rw [offer_older (not_lt.mp hlt)]
        simp [hlt, hsb]

/-- What an empty register holds after the versions of `l`. -/
def held (R : α → α → Prop) [DecidableRel R] (t : α → τ) : List α → Option α
  | [] => none
  | x :: l => some (l.foldl (offer R t) x)

/-- One more version arrives: it is stored if it is the first, and offered otherwise. -/
theorem held_snoc (l : List α) (x : α) : held R t (l ++ [x]) =
    some ((held R t l).elim x fun s => offer R t s x) := by
  cases l with
  | nil => rfl
  | cons y l => simp [held, List.foldl_append]

/-- An empty register follows a stream: after each arrival it shows the content of what arrived. -/
def Follows (R : α → α → Prop) [DecidableRel R] (t : α → τ) (l : List α) : Prop :=
  ∀ p x, p ++ [x] <+: l → ∀ s ∈ held R t (p ++ [x]), R s x

theorem follows_nil : Follows R t [] := by
  intro p x hp
  simp at hp

theorem follows_snoc {l : List α} {x : α} :
    Follows R t (l ++ [x]) ↔ Follows R t l ∧ ∀ s ∈ held R t (l ++ [x]), R s x := by
  constructor
  · intro h
    exact ⟨fun p y hp => h p y (hp.trans (List.prefix_append l [x])), h l x List.prefix_rfl⟩
  · rintro ⟨h, hx⟩ p y hp
    rcases List.prefix_concat_iff.mp hp with heq | hp
    · obtain ⟨rfl, hy⟩ := List.append_inj' heq rfl
      obtain rfl : y = x := by simpa using hy
      exact hx
    · exact h p y hp

/-- An empty register follows a stream exactly when each change of content carries a newer stamp than
    the change before it. -/
theorem follows_iff (hR : Equivalence R) (l : List α) :
    Follows R t l ↔ (l.destutter fun a b => ¬R a b).IsChain fun a b => t a < t b := by
  cases l with
  | nil => simp [follows_nil]
  | cons y l =>
    rw [List.destutter_cons', ← in_order_iff hR]
    constructor
    · intro h p x hp
      exact h (y :: p) x (by simpa using hp) _ rfl
    · rintro h p x hp s hs
      cases p with
      | nil =>
        obtain rfl : x = y := by simpa using hp
        obtain rfl : x = s := Option.some.inj hs
        exact hR.refl x
      | cons z p =>
        obtain ⟨rfl, hp'⟩ : z = y ∧ p ++ [x] <+: l := by simpa using hp
        cases hs
        exact h p x hp'

/-- Where stamps never decrease a newer stamp is a different one. -/
theorem isChain_lt_iff_ne : ∀ {l : List α}, (l.Pairwise fun a b => t a ≤ t b) →
    ((l.IsChain fun a b => t a < t b) ↔ l.IsChain fun a b => t a ≠ t b)
  | [], _ => by simp
  | [_], _ => by simp
  | a :: b :: l, h => by
    have hab := List.rel_of_pairwise_cons h List.mem_cons_self
    rw [List.isChain_cons_cons, List.isChain_cons_cons, isChain_lt_iff_ne h.of_cons, hab.lt_iff_ne]

end InOrder

end Register
