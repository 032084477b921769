import Dtlsr.ConfigFile
import Dtlsr.FilterText
import Dtlsr.Reached

/-!
    The configuration as a format. Rows that are written as the comment in `parse_link` has them are read
    back as they were, and the daemon then starts from them. -/

namespace Dtlsr
open Checked Tokens

namespace ConfigFile

/-- `iface - src_addr - dst_addr - dst_id` -/
def rowText (row : LinkRow) : List Char :=
  row.interface.toList ++ " - ".toList ++ FilterText.inetNtoa row.srcAddr ++ " - ".toList ++
    FilterText.inetNtoa row.dstAddr ++ " - ".toList ++ Nat.toDigits 10 row.dstId.toNat

/-- A file with one line for each row. -/
def fileText (rows : List LinkRow) : List Char := rows.flatMap fun row => rowText row ++ ['\n']

/-- The file with the id, as the services of `core-py/dtlsr.py` write it. -/
def generateId (id : ℤ) : List Char := Nat.toDigits 10 id.toNat

/-- A row that can be written: its name has no separator, and its id is a positive `int` or 0. -/
structure RowOk (row : LinkRow) : Prop where
  named : row.interface.toList ≠ []
  fits : row.interface.toList.length < ifaceStrMaxLen
  plain : ∀ c ∈ row.interface.toList, linkSep c = false ∧ newline c = false
  nonneg : 0 ≤ row.dstId
  int : row.dstId < 2 ^ 31

/-! ### Numbers and addresses -/

theorem linkSep_digit {c : Char} (h : c.isDigit = true) : linkSep c = false ∧ newline c = false := by
  have hne : ∀ d : Char, d.isDigit = false → c ≠ d := by
    rintro d hd rfl
    rw [h] at hd
    cases hd
  simp [linkSep, newline, hne ' ' (by decide), hne '-' (by decide), hne '\n' (by decide)]

theorem inetNtoa_plain {a : Ip} {c : Char} (h : c ∈ FilterText.inetNtoa a) :
    linkSep c = false ∧ newline c = false := by
  rcases Pcap.mem_quad_text h with hd | rfl
  · exact linkSep_digit hd
  · decide

theorem strtol_digits {n : ℕ} (h : n < 2 ^ 63) : strtol (Nat.toDigits 10 n) = n := by
  have hdigit : ∀ c ∈ Nat.toDigits 10 n, c.isDigit = true := fun _ => Pcap.isDigit_of_mem
  have hvalue : leadingDigits (Nat.toDigits 10 n) = n := by
    rw [leadingDigits, List.takeWhile_eq_self_iff.mpr hdigit, Nat.ofDigitChars_ten_toDigits]
  match htext : Nat.toDigits 10 n, Nat.toDigits_ne_nil (n := n) (b := 10) with
  | c :: rest, _ =>
    rw [htext] at hdigit hvalue
    have hc : c.isDigit = true := hdigit c (by simp)
    have hspace : isSpace c = false := by
      have hge : '0' ≤ c := of_decide_eq_true (Bool.and_eq_true_iff.mp hc).1
      have hblank : c ≠ ' ' := by rintro rfl; cases hc
      have hlt : ¬c ≤ '\r' := fun hle => absurd (Char.le_trans hge hle) (by decide)
      simp [isSpace, hblank, hlt]
    have hminus : c ≠ '-' := by rintro rfl; cases hc
    have hplus : c ≠ '+' := by rintro rfl; cases hc
    rw [strtol, List.dropWhile_cons_of_neg (by rw [hspace]; decide)]
    split
    · rename_i heq
      exact absurd (List.cons.inj heq).1 hminus
    · rename_i heq
      exact absurd (List.cons.inj heq).1 hplus
    · rw [hvalue]
      omega

theorem atoi_digits {n : ℕ} (h : n < 2 ^ 31) : atoi (Nat.toDigits 10 n) = n := by
  rw [atoi, strtol_digits (by omega), Int.bmod_eq_of_le (by omega) (by omega)]

theorem octet_digits : ∀ n : Fin 256, octet (Nat.toDigits 10 n) = some (n : ℕ) := by decide +kernel

theorem inetPton_inetNtoa (a : Ip) : inetPton (FilterText.inetNtoa a) = some a := by
  have hdot : ∀ n, '.' ∉ Nat.toDigits 10 n := fun n => Pcap.not_mem_digits (by decide)
  obtain ⟨ha, hb, hc, hd⟩ := FilterText.quadOf_ok a
  have hoctet : ∀ n, n < 256 → octet (Nat.toDigits 10 n) = some n := fun n hn => octet_digits ⟨n, hn⟩
  have hbytes : inetAddr (FilterText.quadOf a).a (FilterText.quadOf a).b (FilterText.quadOf a).c
      (FilterText.quadOf a).d = a := by
    rw [inetAddr, ← FilterText.toNat_eq_bytes, UInt32.ofNat_toNat]
  rw [inetPton, FilterText.inetNtoa, Pcap.Quad.text,
    List.splitOn_intercalate _ (by simp [hdot]) (by simp)]
  simp [hoctet, ha, hb, hc, hd, hbytes]

/-! ### Rows -/

theorem tokens_word {w rest : List Char} (hw : ∀ c ∈ w, linkSep c = false) (hne : w ≠ []) :
    tokens linkSep (w ++ (" - ".toList ++ rest)) = w :: tokens linkSep rest := by
  rw [show " - ".toList ++ rest = ' ' :: '-' :: ' ' :: rest from rfl, (tokens_append hw hne (by decide)).2, tokens_cons_of_delim (by decide),
    tokens_cons_of_delim (by decide)]

theorem tokens_self {w : List Char} (hw : ∀ c ∈ w, linkSep c = false) (hne : w ≠ []) :
    tokens linkSep w = [w] :=
  (@tokens_append linkSep w [] ' ' hw hne (by decide)).1

theorem inetNtoa_ne_nil (a : Ip) : FilterText.inetNtoa a ≠ [] := by
  simp [FilterText.inetNtoa, Pcap.Quad.text, List.intercalate_cons_cons]

theorem tokens_rowText {row : LinkRow} (h : RowOk row) : tokens linkSep (rowText row) =
    [row.interface.toList, FilterText.inetNtoa row.srcAddr, FilterText.inetNtoa row.dstAddr,
      Nat.toDigits 10 row.dstId.toNat] := by
  have haddr : ∀ a, ∀ c ∈ FilterText.inetNtoa a, linkSep c = false := fun a c hc => (inetNtoa_plain hc).1
  have hid : ∀ c ∈ Nat.toDigits 10 row.dstId.toNat, linkSep c = false :=
    fun c hc => (linkSep_digit (Pcap.isDigit_of_mem hc)).1
  simp only [rowText, List.append_assoc]
  rw [tokens_word (fun c hc => (h.plain c hc).1) h.named, tokens_word (haddr _) (inetNtoa_ne_nil _),
    tokens_word (haddr _) (inetNtoa_ne_nil _), tokens_self hid Nat.toDigits_ne_nil]

theorem rowText_plain {row : LinkRow} (h : RowOk row) : ∀ c ∈ rowText row, newline c = false := by
  have hall : (" - ".toList.all fun c => newline c = false) = true := by decide
  have hsep : ∀ c ∈ " - ".toList, newline c = false :=
    fun c hc => of_decide_eq_true (List.all_eq_true.mp hall c hc)
  intro c hc
  simp only [rowText, List.mem_append] at hc
  rcases hc with (((((hc | hc) | hc) | hc) | hc) | hc) | hc
  · exact (h.plain c hc).2
  · exact hsep c hc
  · exact (inetNtoa_plain hc).2
  · exact hsep c hc
  · exact (inetNtoa_plain hc).2
  · exact hsep c hc
  · exact (linkSep_digit (Pcap.isDigit_of_mem hc)).2

theorem linkRow_rowText {row : LinkRow} (h : RowOk row) : linkRow (rowText row) = some row := by
  have hid : atoi (Nat.toDigits 10 row.dstId.toNat) = row.dstId := by
    rw [atoi_digits (by have := h.int; omega), Int.toNat_of_nonneg h.nonneg]
  simp only [linkRow, tokens_rowText h, if_pos h.fits, inetPton_inetNtoa, hid, String.ofList_toList]
  rfl

/-! ### Files -/

theorem tokens_fileText {rows : List LinkRow} (h : ∀ row ∈ rows, RowOk row) :
    tokens newline (fileText rows) = rows.map rowText ∧ parseNNeighbours (fileText rows) = rows.length := by
  induction rows with
  | nil => exact ⟨by simp [fileText, tokens], rfl⟩
  | cons row rows ih =>
    obtain ⟨hrow, hrows⟩ := List.forall_mem_cons.mp h
    obtain ⟨htokens, hcount⟩ := ih hrows
    have hcons : fileText (row :: rows) = rowText row ++ '\n' :: fileText rows := by simp [fileText]
    have hplain := rowText_plain hrow
    have hne : rowText row ≠ [] := by
      intro hnil
      have := tokens_rowText hrow
      rw [hnil] at this
      simp [tokens] at this
    have hnone : (rowText row).countP newline = 0 :=
      List.countP_eq_zero.mpr fun c hc => by rw [hplain c hc]; decide
    rw [parseNNeighbours_eq] at hcount ⊢
    rw [hcons, (tokens_append hplain hne (by decide)).2, htokens, List.countP_append, hnone,
      List.countP_cons, hcount]
    exact ⟨rfl, by simp [newline]⟩

theorem digits_length {n k : ℕ} (hk : 0 < k) (h : n < 10 ^ k) : (Nat.toDigits 10 n).length ≤ k :=
  (Nat.length_toDigits_le_iff (by decide) hk).mpr h

theorem inetNtoa_length (a : Ip) : (FilterText.inetNtoa a).length ≤ 15 := by
  obtain ⟨ha, hb, hc, hd⟩ := FilterText.quadOf_ok a
  have hthree : ∀ n < 256, (Nat.toDigits 10 n).length ≤ 3 := fun n hn => digits_length (by decide) (by omega)
  have ha := hthree _ ha
  have hb := hthree _ hb
  have hc := hthree _ hc
  have hd := hthree _ hd
  simp only [FilterText.inetNtoa, Pcap.Quad.text, List.intercalate_cons_cons, List.intercalate_singleton,
    List.length_append, List.length_singleton]
  omega

theorem rowText_length {row : LinkRow} (h : RowOk row) : (rowText row).length ≤ 54 := by
  have hname : row.interface.toList.length < 6 := h.fits
  have hsrc := inetNtoa_length row.srcAddr
  have hdst := inetNtoa_length row.dstAddr
  have hid : (Nat.toDigits 10 row.dstId.toNat).length ≤ 10 :=
    digits_length (by decide) (by have := h.int; omega)
  have hsep : " - ".toList.length = 3 := by decide
  simp only [rowText, List.length_append, hsep]
  omega

theorem fileText_length {rows : List LinkRow} (h : ∀ row ∈ rows, RowOk row) :
    (fileText rows).length ≤ 55 * rows.length := by
  induction rows with
  | nil => simp [fileText]
  | cons row rows ih =>
    obtain ⟨hrow, hrows⟩ := List.forall_mem_cons.mp h
    have hrest := ih hrows
    have hlen := rowText_length hrow
    have hcons : fileText (row :: rows) = rowText row ++ '\n' :: fileText rows := by simp [fileText]
    rw [hcons, List.length_append, List.length_cons, List.length_cons]
    omega

/-- The round trip of the configuration. Rows that are written into a file are read back as they were, the
    file of as many rows as a node may have links fits the buffer of `read_file`, and from the files with
    the id and with the rows the node is set up as the driver is taken to start. -/
theorem config_round_trip {M : Type} [Field M] {S : Setup M} (hid : 0 ≤ S.id) (hint : S.id < 2 ^ 31)
    (hrows : ∀ row ∈ S.links, RowOk row) (now : ℕ) :
    (tokens newline (fileText S.links)).map linkRow = S.links.map some ∧
      (S.links.length ≤ maxNodeFan → (fileText S.links).length < maxLine) ∧
      ∀ disk protocol config, Reads disk (idName protocol) (generateId S.id) →
        Reads disk (confName config (generateId S.id)) (fileText S.links) →
          localNodeInit S.build S.this disk protocol config now = Dtlsr.localNodeInit S now := by
  obtain ⟨htokens, hcount⟩ := tokens_fileText hrows
  have hback : List.Forall₂ (fun pch row => linkRow pch = some row) (tokens newline (fileText S.links))
      S.links := by
    rw [htokens, List.forall₂_map_left_iff]
    exact List.forall₂_same.mpr fun row hrow => linkRow_rowText (hrows row hrow)
  refine ⟨?_, fun hfan => ?_, fun disk protocol config hidFile hconf => ?_⟩
  · rw [htokens, List.map_map]
    exact List.map_congr_left fun row hrow => linkRow_rowText (hrows row hrow)
  · have hlen := fileText_length hrows
    unfold maxNodeFan at hfan
    unfold maxLine
    omega
  · rw [localNodeInit_eq_from hidFile hconf, generateId, atoi_digits (by omega), Int.toNat_of_nonneg hid]
    refine localNodeFrom_eq hback ((rows_counted_iff _).mp ?_) now
    rw [htokens, hcount, List.length_map]

/-- A disk with the two files of a node. -/
def diskOf (protocol config : List Char) (id : ℤ) (rows : List LinkRow) (filename : List Char) :
    Option (List Char) :=
  if filename = idName protocol then some (generateId id)
  else if filename = confName config (generateId id) then some (fileText rows)
  else none

/-- The rows of two links, and the node that is set up from them. -/
theorem config_round_trip_twoLinks :
    (tokens newline (fileText (twoLinks .dtlsr id (pure false)).links)).map linkRow =
        (twoLinks .dtlsr id (pure false)).links.map some ∧
      localNodeInit .dtlsr zeroLocalNode
          (diskOf "dtlsr".toList "loop".toList 1 (twoLinks .dtlsr id (pure false)).links)
          "dtlsr".toList "loop".toList 0 =
        Dtlsr.localNodeInit (twoLinks .dtlsr id (pure false)) 0 := by
  have hrow : ∀ row ∈ (twoLinks .dtlsr id (pure false)).links, RowOk row := by
    intro row hrow
    simp only [twoLinks, List.mem_cons, List.not_mem_nil, or_false] at hrow
    rcases hrow with rfl | rfl
    all_goals exact ⟨by decide, by decide, by simp [linkSep, newline], by decide, by decide⟩
  obtain ⟨hback, -, hset⟩ :=
    config_round_trip (S := twoLinks .dtlsr id (pure false)) (by decide) (by decide) hrow 0
  refine ⟨hback, hset _ _ _ ⟨by decide +kernel, _, if_pos rfl, by decide +kernel, by decide +kernel⟩
    ⟨by decide +kernel, _, (if_neg (by decide +kernel)).trans (if_pos rfl), by decide +kernel,
      by decide +kernel⟩⟩

example : fileText (twoLinks .dtlsr id (pure false)).links =
    "eth0 - 10.0.0.1 - 10.0.0.2 - 2\neth1 - 10.0.1.1 - 10.0.1.3 - 3\n".toList := by
  decide +kernel

end ConfigFile

end Dtlsr
