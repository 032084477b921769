import Mathlib.Algebra.Order.Group.Nat
import Mathlib.Data.List.Basic
import Mathlib.Tactic.Common

/-!
    Filter expressions of libpcap, in the part of its language that has `dst net` and `port` with lists
    of ids, `not`, `and`, `or` and parentheses, its words separated by blanks. As in its grammar `and`
    and `or` have one precedence and associate to the left, `not` binds closest, and an id without a
    qualifier takes the one before it. `compile` reads a string, `Expr.holds` is what the expression
    means; printed words are read back (`lex_render`), and so are lists of ids (`expr_ids`). -/

namespace Pcap

/-- `a.b.c.d` -/
structure Quad where
  a : ℕ
  b : ℕ
  c : ℕ
  d : ℕ
  deriving DecidableEq

/-- The address as a number, its first part the most significant. -/
def Quad.value (q : Quad) : ℕ := q.a * 2 ^ 24 + q.b * 2 ^ 16 + q.c * 2 ^ 8 + q.d

/-- Each part is a byte. -/
def Quad.Ok (q : Quad) : Prop := q.a < 256 ∧ q.b < 256 ∧ q.c < 256 ∧ q.d < 256

/-- What the expressions look at in a packet. -/
structure Headers where
  dst : ℕ
  srcPort : ℕ
  dstPort : ℕ

inductive Expr where
  /-- the first `len` bits of the destination are those of `addr` -/
  | dstNet (addr len : ℕ)
  | port (n : ℕ)
  | not (e : Expr)
  | and (e f : Expr)
  | or (e f : Expr)
  deriving DecidableEq

def Expr.holds : Expr → Headers → Bool
  | .dstNet addr len, h => h.dst / 2 ^ (32 - len) = addr / 2 ^ (32 - len)
  | .port n, h => h.srcPort = n || h.dstPort = n
  | .not e, h => !e.holds h
  | .and e f, h => e.holds h && f.holds h
  | .or e f, h => e.holds h || f.holds h

/-! ### Words -/

inductive Tok where
  | lpar | rpar | not | and | or | dst | net | port
  | num (n : ℕ)
  | addr (q : Quad)
  | cidr (q : Quad) (len : ℕ)
  deriving DecidableEq

def Quad.text (q : Quad) : List Char :=
  ['.'].intercalate [Nat.toDigits 10 q.a, Nat.toDigits 10 q.b, Nat.toDigits 10 q.c, Nat.toDigits 10 q.d]

def Tok.text : Tok → List Char
  | .lpar => "(".toList
  | .rpar => ")".toList
  | .not => "not".toList
  | .and => "and".toList
  | .or => "or".toList
  | .dst => "dst".toList
  | .net => "net".toList
  | .port => "port".toList
  | .num n => Nat.toDigits 10 n
  | .addr q => q.text
  | .cidr q len => ['/'].intercalate [q.text, Nat.toDigits 10 len]

/-- The words of the language that are no ids. -/
def keywords : List Tok := [.lpar, .rpar, .not, .and, .or, .dst, .net, .port]

def number (w : List Char) : Option ℕ :=
  if w ≠ [] ∧ w.all Char.isDigit = true then some (Nat.ofDigitChars 10 w 0) else none

def octet (w : List Char) : Option ℕ := (number w).filter fun n => n < 256

def quad : List (List Char) → Option Quad
  | [a, b, c, d] => do pure { a := ← octet a, b := ← octet b, c := ← octet c, d := ← octet d }
  | _ => none

def id (w : List Char) : Option Tok :=
  match w.splitOn '/' with
  | [w] =>
    match w.splitOn '.' with
    | [n] => (number n).map .num
    | parts => (quad parts).map .addr
  | [w, len] => do pure (.cidr (← quad (w.splitOn '.')) (← number len))
  | _ => none

def word (w : List Char) : Option Tok :=
  match keywords.find? fun t => t.text = w with
  | some t => some t
  | none => id w

def lex (s : List Char) : Option (List Tok) :=
  ((s.splitOn ' ').filter fun w => w ≠ []).mapM word

/-- The words with blanks between them. -/
def render (toks : List Tok) : List Char := [' '].intercalate (toks.map Tok.text)

/-! ### Expressions -/

inductive Qual where
  | dstNet | port
  deriving DecidableEq

/-- An id under its qualifier. A network has no bits set outside of its length. -/
def idExpr : Qual → Tok → Option Expr
  | .dstNet, .addr q => some (.dstNet q.value 32)
  | .dstNet, .cidr q len =>
    if len ≤ 32 ∧ q.value % 2 ^ (32 - len) = 0 then some (.dstNet q.value len) else none
  | .port, .num n => if n < 2 ^ 16 then some (.port n) else none
  | _, _ => none

/-- An expression, the qualifier in force after it, and the words that follow. -/
abbrev Parsed := Expr × Option Qual × List Tok

/-- What may stand on a side of `and` and `or`; `expr` reads what is in parentheses. -/
def operand (expr : Option Qual → List Tok → Option Parsed) (q : Option Qual) :
    List Tok → Option Parsed
  | .not :: ts => (operand expr q ts).map fun r => (.not r.1, r.2)
  | .lpar :: ts =>
    match expr q ts with
    | some (e, q, .rpar :: ts) => some (e, q, ts)
    | _ => none
  | .dst :: .net :: t :: ts => (idExpr .dstNet t).map fun e => (e, some .dstNet, ts)
  | .port :: t :: ts => (idExpr .port t).map fun e => (e, some .port, ts)
  | t :: ts => (q.bind fun k => idExpr k t).map fun e => (e, q, ts)
  | [] => none

/-- The operands that follow `e`. -/
def more (expr : Option Qual → List Tok → Option Parsed) :
    ℕ → Expr → Option Qual → List Tok → Option Parsed
  | 0, _, _, _ => none
  | fuel + 1, e, q, ts =>
    match ts with
    | .and :: ts =>
      match operand expr q ts with
      | some (f, q, ts) => more expr fuel (.and e f) q ts
      | none => none
    | .or :: ts =>
      match operand expr q ts with
      | some (f, q, ts) => more expr fuel (.or e f) q ts
      | none => none
    | ts => some (e, q, ts)

def expr : ℕ → Option Qual → List Tok → Option Parsed
  | 0, _, _ => none
  | fuel + 1, q, ts =>
    match operand (expr fuel) q ts with
    | some (e, q, ts) => more (expr fuel) (fuel + 1) e q ts
    | none => none

/-- The expression that a string is, if it is one. -/
def compile (s : List Char) : Option Expr :=
  match lex s with
  | none => none
  | some toks =>
    match expr (toks.length + 1) none toks with
    | some (e, _, []) => some e
    | _ => none

/-! ### Reading words back -/

/-- The addresses in the word are addresses. -/
def Tok.Ok : Tok → Prop
  | .addr q => q.Ok
  | .cidr q _ => q.Ok
  | _ => True

theorem isDigit_of_mem {n : ℕ} {c : Char} (h : c ∈ Nat.toDigits 10 n) : c.isDigit = true :=
  Nat.isDigit_of_mem_toDigits (by decide) (by decide) h

theorem not_mem_digits {n : ℕ} {c : Char} (hc : c.isDigit = false) : c ∉ Nat.toDigits 10 n := by
  intro h
  rw [isDigit_of_mem h] at hc
  cases hc

theorem number_digits (n : ℕ) : number (Nat.toDigits 10 n) = some n := by
  have hall : (Nat.toDigits 10 n).all Char.isDigit = true :=
    List.all_eq_true.mpr fun _ => isDigit_of_mem
  rw [number, if_pos ⟨Nat.toDigits_ne_nil, hall⟩, Nat.ofDigitChars_ten_toDigits]

theorem octet_digits {n : ℕ} (h : n < 256) : octet (Nat.toDigits 10 n) = some n := by
  simp [octet, number_digits, h]

theorem quad_text {q : Quad} (h : q.Ok) : quad (q.text.splitOn '.') = some q := by
  obtain ⟨ha, hb, hc, hd⟩ := h
  have hdot : ∀ n, '.' ∉ Nat.toDigits 10 n := fun n => not_mem_digits (by decide)
  rw [Quad.text, List.splitOn_intercalate _ (by simp [hdot]) (by simp)]
  simp [quad, octet_digits, ha, hb, hc, hd]

theorem mem_quad_text {q : Quad} {c : Char} (h : c ∈ q.text) : c.isDigit = true ∨ c = '.' := by
  simp only [Quad.text, List.intercalate_cons_cons, List.intercalate_singleton, List.mem_append,
    List.mem_singleton] at h
  rcases h with ((h | h) | (h | h) | (h | h) | h)
  all_goals first | exact Or.inl (isDigit_of_mem h) | exact Or.inr h

theorem id_num (n : ℕ) : id (Nat.toDigits 10 n) = some (.num n) := by
  have hslash : '/' ∉ Nat.toDigits 10 n := not_mem_digits (by decide)
  have hdot : '.' ∉ Nat.toDigits 10 n := not_mem_digits (by decide)
  simp [id, List.splitOn_eq_singleton hslash, List.splitOn_eq_singleton hdot, number_digits]

theorem not_mem_quad_text {q : Quad} {c : Char} (hc : c.isDigit = false) (hdot : c ≠ '.') :
    c ∉ q.text := by
  intro h
  rcases mem_quad_text h with hd | hd
  · rw [hc] at hd
    cases hd
  · exact hdot hd

/-- The four parts of an address are more than one. -/
theorem splitOn_quad_text (q : Quad) : ∃ a b c d, q.text.splitOn '.' = [a, b, c, d] := by
  have hdot : ∀ n, '.' ∉ Nat.toDigits 10 n := fun n => not_mem_digits (by decide)
  rw [Quad.text, List.splitOn_intercalate _ (by simp [hdot]) (by simp)]
  exact ⟨_, _, _, _, rfl⟩

theorem id_addr {q : Quad} (h : q.Ok) : id q.text = some (.addr q) := by
  have hslash : '/' ∉ q.text := not_mem_quad_text (by decide) (by decide)
  obtain ⟨a, b, c, d, hsplit⟩ := splitOn_quad_text q
  have hq := quad_text h
  rw [hsplit] at hq
  simp [id, List.splitOn_eq_singleton hslash, hsplit, hq]

theorem id_cidr {q : Quad} (h : q.Ok) (len : ℕ) : id (Tok.cidr q len).text = some (.cidr q len) := by
  have hslash : '/' ∉ q.text := not_mem_quad_text (by decide) (by decide)
  have hslash' : '/' ∉ Nat.toDigits 10 len := not_mem_digits (by decide)
  rw [id, Tok.text, List.splitOn_intercalate _ (by simp [hslash, hslash']) (by simp)]
  simp [quad_text h, number_digits]

/-- A word that starts with a digit is no keyword. -/
theorem word_of_digit {c : Char} {w : List Char} (hc : c.isDigit = true) :
    word (c :: w) = id (c :: w) := by
  have hnone : keywords.find? (fun t => t.text = c :: w) = none := by
    rw [List.find?_eq_none]
    intro t ht heq
    have hhead : ∀ t ∈ keywords, (t.text.head?.any Char.isDigit) = false := by decide
    have := hhead t ht
    rw [of_decide_eq_true heq] at this
    simp [hc] at this
  rw [word, hnone]

theorem digits_cons (n : ℕ) : ∃ c w, Nat.toDigits 10 n = c :: w ∧ c.isDigit = true := by
  obtain ⟨c, w, h⟩ := List.exists_cons_of_ne_nil (Nat.toDigits_ne_nil (n := n) (b := 10))
  exact ⟨c, w, h, isDigit_of_mem (n := n) (by rw [h]; exact List.mem_cons_self)⟩

theorem quad_text_cons (q : Quad) : ∃ c w, q.text = c :: w ∧ c.isDigit = true := by
  obtain ⟨c, w, h, hc⟩ := digits_cons q.a
  rw [Quad.text, List.intercalate_cons_cons, h]
  exact ⟨c, _, by rw [List.append_assoc, List.cons_append], hc⟩

/-- A printed word is read back. -/
theorem word_text {t : Tok} (h : t.Ok) : word t.text = some t := by
  cases t with
  | num n =>
    obtain ⟨c, w, hw, hc⟩ := digits_cons n
    have hid := id_num n
    rw [hw] at hid
    rw [Tok.text, hw, word_of_digit hc, hid]
  | addr q =>
    obtain ⟨c, w, hw, hc⟩ := quad_text_cons q
    have hid := id_addr h
    rw [hw] at hid
    rw [Tok.text, hw, word_of_digit hc, hid]
  | cidr q len =>
    obtain ⟨c, w, hw, hc⟩ := quad_text_cons q
    have htext : (Tok.cidr q len).text = c :: (w ++ '/' :: Nat.toDigits 10 len) := by
      simp [Tok.text, List.intercalate_cons_cons, hw]
    have hid := id_cidr h len
    rw [htext] at hid ⊢
    rw [word_of_digit hc, hid]
  | _ => rfl

theorem text_ne_nil (t : Tok) : t.text ≠ [] := by
  cases t with
  | num n => exact Nat.toDigits_ne_nil
  | addr q =>
    obtain ⟨c, w, hw, -⟩ := quad_text_cons q
    simp [Tok.text, hw]
  | cidr q len =>
    obtain ⟨c, w, hw, -⟩ := quad_text_cons q
    simp [Tok.text, List.intercalate_cons_cons, hw]
  | _ => simp [Tok.text]

theorem blank_not_mem_text (t : Tok) : ' ' ∉ t.text := by
  have hdigits : ∀ n, ' ' ∉ Nat.toDigits 10 n := fun n => not_mem_digits (by decide)
  have hquad : ∀ q : Quad, ' ' ∉ q.text := fun q => not_mem_quad_text (by decide) (by decide)
  cases t <;> simp [Tok.text, hdigits, hquad, List.intercalate_cons_cons]

/-- Printed words are read back. -/
theorem lex_render {toks : List Tok} (h : ∀ t ∈ toks, t.Ok) : lex (render toks) = some toks := by
  have hwords : (toks.map Tok.text).mapM word = some toks := by
    induction toks with
    | nil => rfl
    | cons t toks ih =>
      have ht := h t List.mem_cons_self
      have hts := ih fun t' ht' => h t' (List.mem_cons_of_mem t ht')
      rw [List.map_cons, List.mapM_cons, word_text ht, hts]
      rfl
  have hne : ∀ w ∈ toks.map Tok.text, w ≠ [] := by
    simp only [List.mem_map]
    rintro _ ⟨t, -, rfl⟩
    exact text_ne_nil t
  have hsplit : ((render toks).splitOn ' ').filter (fun w => w ≠ []) = toks.map Tok.text := by
    cases toks with
    | nil => rfl
    | cons t toks =>
      rw [render, List.splitOn_intercalate _ ?_ (by simp), List.filter_eq_self]
      · simpa using hne
      · simp only [List.mem_map]
        rintro _ ⟨t, -, rfl⟩
        exact blank_not_mem_text t
  rw [lex, hsplit, hwords]

/-! ### Reading expressions back -/

section Parse
variable {reads : Option Qual → List Tok → Option Parsed} {q q' : Option Qual} {k : Qual} {e : Expr}
  {t : Tok} {ts rest : List Tok} {fuel : ℕ}

/-- The words end an expression: none is left, or the next is neither `and` nor `or`. -/
def Stops (rest : List Tok) : Prop := rest.head? ≠ some .and ∧ rest.head? ≠ some .or

theorem stops_rpar : Stops (.rpar :: rest) := by simp [Stops]

theorem stops_nil : Stops [] := by simp [Stops]

theorem more_stop (h : Stops rest) : more reads (fuel + 1) e q rest = some (e, q, rest) := by
  cases rest with
  | nil => rfl
  | cons t rest => cases t <;> simp_all [Stops, more]

theorem operand_id (h : idExpr k t = some e) :
    operand reads (some k) (t :: rest) = some (e, some k, rest) := by
  cases k <;> cases t <;> simp_all [idExpr, operand]

/-- The words of a qualifier. -/
def Qual.toks : Qual → List Tok
  | .dstNet => [.dst, .net]
  | .port => [.port]

theorem operand_qual (h : idExpr k t = some e) :
    operand reads q (k.toks ++ t :: rest) = some (e, some k, rest) := by
  cases k <;> simp [Qual.toks, operand, h]

theorem operand_group (h : reads q ts = some (e, q', .rpar :: rest)) :
    operand reads q (.lpar :: ts) = some (e, q', rest) := by
  simp [operand, h]

theorem operand_not (h : operand reads q ts = some (e, q', rest)) :
    operand reads q (.not :: ts) = some (.not e, q', rest) := by
  simp [operand, h]

/-- An expression of one operand. -/
theorem expr_operand (h : operand (expr fuel) q ts = some (e, q', rest)) (hstop : Stops rest) :
    expr (fuel + 1) q ts = some (e, q', rest) := by
  rw [expr, h]
  exact more_stop hstop

theorem more_and {f : Expr} (h : operand reads q ts = some (f, q', rest)) :
    more reads (fuel + 1) e q (.and :: ts) = more reads fuel (.and e f) q' rest := by
  simp [more, h]

/-- Ids that each have `or` before them. -/
def orIds (ids : List Tok) : List Tok := ids.flatMap fun t => [.or, t]

/-- A list of ids under a qualifier. -/
def Qual.list (k : Qual) (id : Tok) (ids : List Tok) : List Tok := k.toks ++ id :: orIds ids

/-- One of the expressions. -/
def anyOf (e : Expr) (es : List Expr) : Expr := es.foldl .or e

theorem anyOf_holds (h : Headers) : ∀ (es : List Expr) (e : Expr),
    (anyOf e es).holds h = (e :: es).any fun e => e.holds h
  | [], _ => by simp [anyOf]
  | f :: es, e => by
    have ih := anyOf_holds h es (.or e f)
    rw [anyOf, List.foldl_cons]
    rw [anyOf] at ih
    rw [ih]
    simp [Expr.holds, Bool.or_assoc]

/-- What follows the first id is read to its end. -/
theorem more_ids (hstop : Stops rest) : ∀ {ids : List Tok} {es : List Expr} {fuel : ℕ} {e : Expr},
    List.Forall₂ (fun id f => idExpr k id = some f) ids es → ids.length < fuel →
    more reads fuel e (some k) (orIds ids ++ rest) = some (anyOf e es, some k, rest) := by
  intro ids
  induction ids with
  | nil =>
    intro es fuel e hids hfuel
    cases hids
    obtain ⟨fuel, rfl⟩ := Nat.exists_eq_succ_of_ne_zero (show fuel ≠ 0 by omega)
    exact more_stop hstop
  | cons id ids ih =>
    intro es fuel e hids hfuel
    cases hids with
    | @cons _ f _ fs hid hids =>
      obtain ⟨fuel, rfl⟩ := Nat.exists_eq_succ_of_ne_zero (show fuel ≠ 0 by omega)
      have hnext : more reads (fuel + 1) e (some k) (orIds (id :: ids) ++ rest) =
          more reads fuel (.or e f) (some k) (orIds ids ++ rest) := by
        simp [orIds, more, operand_id hid]
      rw [hnext, ih hids (by simpa using hfuel)]
      rfl

/-- A list of ids under one qualifier is read as the alternative of them all. -/
theorem expr_ids {id : Tok} {ids : List Tok} {es : List Expr} (hstop : Stops rest)
    (hid : idExpr k id = some e) (hids : List.Forall₂ (fun id f => idExpr k id = some f) ids es)
    (hfuel : ids.length ≤ fuel) :
    expr (fuel + 1) q (k.list id ids ++ rest) = some (anyOf e es, some k, rest) := by
  have hhead : operand (expr fuel) q (k.list id ids ++ rest) = some (e, some k, orIds ids ++ rest) := by
    rw [Qual.list, List.append_assoc, List.cons_append]
    exact operand_qual hid
  rw [expr, hhead]
  exact more_ids hstop hids (by omega)

end Parse

/-! ### Printing -/

theorem render_cons {t : Tok} {ts : List Tok} (h : ts ≠ []) :
    render (t :: ts) = t.text ++ ' ' :: render ts := by
  obtain ⟨u, us, rfl⟩ := List.exists_cons_of_ne_nil h
  simp [render, List.intercalate_cons_cons]

theorem render_append {ts us : List Tok} (hts : ts ≠ []) (hus : us ≠ []) :
    render (ts ++ us) = render ts ++ ' ' :: render us := by
  induction ts with
  | nil => exact absurd rfl hts
  | cons t ts ih =>
    rcases List.eq_nil_or_concat ts with rfl | ⟨ts', u, rfl⟩
    · rw [List.singleton_append, render_cons hus]
      simp [render]
    · rw [List.cons_append, render_cons (by simp), ih (by simp), render_cons (by simp)]
      simp

/-- The ids of a list, with ` or ` between them. -/
theorem render_orIds (id : Tok) (ids : List Tok) :
    render (id :: orIds ids) = " or ".toList.intercalate ((id :: ids).map Tok.text) := by
  induction ids generalizing id with
  | nil => simp [orIds, render]
  | cons u us ih =>
    have hor : id :: orIds (u :: us) = [id, .or] ++ (u :: orIds us) := rfl
    rw [hor, render_append (by simp) (by simp), ih]
    simp [render, Tok.text, List.intercalate_cons_cons]

end Pcap
