import Dtlsr.Lib.Checked
import Mathlib.Data.List.TakeWhile

/-!
    `strtok_r`. The tokens of a string are the maximal runs without a delimiter: of the pieces that the
    delimiters cut it into, those that are not empty (`tokens`). A loop over `strtok_r` is a fold over
    them (`forTokens_eq`), so that it finds as many as there are delimiters exactly if one piece is empty
    (`tokens_length_iff`). -/

namespace Tokens
open Checked

/-- `strtok_r`: the next token, and what is saved for the call after it. The delimiter that ends the
    token is overwritten. -/
def strtokR (delim : Char → Bool) (s : List Char) : Option (List Char × List Char) :=
  match s.dropWhile delim with
  | [] => none
  | c :: rest => some ((c :: rest).takeWhile fun x => !delim x,
      ((c :: rest).dropWhile fun x => !delim x).drop 1)

/-- The pieces between the delimiters that are not empty. -/
def tokens (delim : Char → Bool) (s : List Char) : List (List Char) :=
  (s.splitOnP delim).filter fun piece => piece ≠ []

variable {σ : Type}

/-- `for (i = 0, t = strtok_r(s, ..); t != NULL; i++, t = strtok_r(NULL, ..))` -/
def forTokens (delim : Char → Bool) (body : List Char → ℕ → σ → Exec σ) :
    ℕ → List Char → ℕ → σ → Exec σ
  | 0, _, _, _ => .error .outOfFuel
  | fuel + 1, s, i, st =>
    match strtokR delim s with
    | none => pure st
    | some (t, saved) => do forTokens delim body fuel saved (i + 1) (← body t i st)

variable {delim : Char → Bool} {s t saved : List Char}

theorem tokens_cons_of_delim {c : Char} (hc : delim c = true) :
    tokens delim (c :: s) = tokens delim s := by
  simp [tokens, List.splitOnP_cons_eq_if_modifyHead, hc]

theorem strtokR_cons_of_delim {c : Char} (hc : delim c = true) :
    strtokR delim (c :: s) = strtokR delim s := by
  simp [strtokR, List.dropWhile_cons, hc]

/-- A token, and the delimiter or the end that closes it. -/
theorem tokens_append {d : Char} (ht : ∀ x ∈ t, delim x = false) (hne : t ≠ []) (hd : delim d = true) :
    tokens delim t = [t] ∧ tokens delim (t ++ d :: saved) = t :: tokens delim saved := by
  constructor
  · simp [tokens, List.splitOnP_eq_singleton ht, hne]
  · simp [tokens, List.splitOnP_append_cons_of_forall_mem ht d hd, hne]

/-- `strtok_r` takes the tokens one after another. -/
theorem strtokR_spec (delim : Char → Bool) : ∀ s : List Char,
    (strtokR delim s = none ∧ tokens delim s = []) ∨
      ∃ t saved, strtokR delim s = some (t, saved) ∧ tokens delim s = t :: tokens delim saved ∧
        saved.length < s.length := by
  intro s
  induction s with
  | nil => exact Or.inl ⟨rfl, by simp [tokens]⟩
  | cons c s ih =>
    cases hc : delim c with
    | true =>
      rw [strtokR_cons_of_delim hc, tokens_cons_of_delim hc]
      rcases ih with h | ⟨t, saved, h1, h2, h3⟩
      · exact Or.inl h
      · exact Or.inr ⟨t, saved, h1, h2, Nat.lt_succ_of_lt h3⟩
    | false =>
      refine Or.inr ⟨c :: s.takeWhile fun x => !delim x, (s.dropWhile fun x => !delim x).drop 1,
        by simp [strtokR, hc], ?_, ?_⟩
      · have htok : ∀ x ∈ c :: s.takeWhile (fun x => !delim x), delim x = false := by
          intro x hx
          rcases List.mem_cons.mp hx with rfl | hx
          · exact hc
          · simpa using List.mem_takeWhile_imp hx
        have hsplit := List.takeWhile_append_dropWhile (p := fun x => !delim x) (l := s)
        cases hrest : s.dropWhile fun x => !delim x with
        | nil =>
          rw [hrest, List.append_nil] at hsplit
          rw [hsplit] at htok ⊢
          simp [tokens, List.splitOnP_eq_singleton htok]
        | cons d rest =>
          have hd : delim d = true := by
            have := List.head_dropWhile_not (fun x => !delim x) (l := s) (by rw [hrest]; simp)
            simpa [hrest] using this
          rw [hrest] at hsplit
          conv_lhs => rw [← hsplit, ← List.cons_append]
          rw [(tokens_append htok (by simp) hd).2]
          rfl
      · have hle := (s.dropWhile_sublist fun x => !delim x).length_le
        rw [List.length_drop, List.length_cons]
        omega

theorem strtokR_of_tokens {ts : List (List Char)} (h : tokens delim s = t :: ts) :
    ∃ saved, strtokR delim s = some (t, saved) ∧ tokens delim saved = ts := by
  rcases strtokR_spec delim s with ⟨-, h2⟩ | ⟨t', saved, h1, h2, -⟩
  · rw [h2] at h
    cases h
  · rw [h2] at h
    cases h
    exact ⟨saved, h1, rfl⟩

theorem tokens_of_strtokR (h : strtokR delim s = some (t, saved)) :
    tokens delim s = t :: tokens delim saved := by
  rcases strtokR_spec delim s with ⟨h1, -⟩ | ⟨t', saved', h1, h2, -⟩
  · rw [h1] at h
    cases h
  · rw [h1] at h
    cases h
    exact h2

/-- The loop over the tokens is a fold over them, with their numbers. -/
theorem forTokens_eq {body : List Char → ℕ → σ → Exec σ} : ∀ {fuel : ℕ} {s : List Char} {i : ℕ} {st : σ},
    s.length < fuel → forTokens delim body fuel s i st =
      ((tokens delim s).zipIdx i).foldlM (fun st t => body t.1 t.2 st) st := by
  intro fuel
  induction fuel with
  | zero =>
    intro s i st h
    exact absurd h (Nat.not_lt_zero _)
  | succ fuel ih =>
    intro s i st h
    rw [forTokens]
    rcases strtokR_spec delim s with ⟨h1, h2⟩ | ⟨t, saved, h1, h2, h3⟩
    · rw [h1, h2]
      rfl
    · rw [h1, h2, List.zipIdx_cons, List.foldlM_cons]
      dsimp only
      congr 1
      funext st'
      exact ih (by omega)

theorem length_splitOnP (delim : Char → Bool) (s : List Char) :
    (s.splitOnP delim).length = s.countP delim + 1 := by
  induction s with
  | nil => simp
  | cons c s ih =>
    rw [List.splitOnP_cons_eq_if_modifyHead, List.countP_cons]
    cases hc : delim c with
    | true => simp [ih]
    | false => simp [ih]

/-- There are as many tokens as delimiters exactly if one piece is empty. -/
theorem tokens_length_iff (s : List Char) :
    (tokens delim s).length = s.countP delim ↔ (s.splitOnP delim).count [] = 1 := by
  have hlen := length_splitOnP delim s
  have hsum := List.length_eq_countP_add_countP (fun piece : List Char => piece == [])
    (l := s.splitOnP delim)
  have htok : (tokens delim s).length = (s.splitOnP delim).countP fun piece => ¬(piece == []) = true := by
    rw [tokens, ← List.countP_eq_length_filter]
    simp
  rw [List.count]
  omega

end Tokens
