import Dtlsr.History
import Dtlsr.Driver
import Dtlsr.Lib.Tokens

/-!
    `process/core_node.c` and `process/fileio.c`: the files of a node. One has its id, and the other one row
    `iface - src_addr - dst_addr - dst_id` for each link. The number of links is counted in one scan of
    this text, and the rows are parsed in another. A text is the characters before the terminator of a
    C string. -/

namespace Dtlsr
open Checked Tokens

namespace ConfigFile

/-! ### What the code calls -/

/-- The delimiter of `strtok_r(contents, "\n", ..)`. -/
def newline (c : Char) : Bool := c = '\n'

/-- The delimiters of `strtok_r(pch, " - ", ..)`. -/
def linkSep (c : Char) : Bool := c = ' ' || c = '-'

/-- A number of `inet_pton`: decimal, below 256, without leading zeros. -/
def octet (s : List Char) : Option ℕ :=
  let n := Nat.ofDigitChars 10 s 0
  if s ≠ [] ∧ s.all Char.isDigit = true ∧ (s.head? = some '0' → s = ['0']) ∧ n < 256 then some n
  else none

/-- `inet_pton(AF_INET, ..)`, where it succeeds. -/
def inetPton (s : List Char) : Option Ip :=
  match s.splitOn '.' with
  | [a, b, c, d] => do pure (inetAddr (← octet a) (← octet b) (← octet c) (← octet d))
  | _ => none

def isSpace (c : Char) : Bool := c = ' ' || ('\t' ≤ c && c ≤ '\r')

/-- The value of the digits that `s` starts with. -/
def leadingDigits (s : List Char) : ℤ := Nat.ofDigitChars 10 (s.takeWhile Char.isDigit) 0

/-- `strtol(s, NULL, 10)`: what a `long` of 64 bits does not hold becomes its least or greatest value. -/
def strtol (s : List Char) : ℤ :=
  let value := match s.dropWhile isSpace with
    | '-' :: s => -leadingDigits s
    | '+' :: s => leadingDigits s
    | s => leadingDigits s
  max (-2 ^ 63) (min value (2 ^ 63 - 1))

/-- `(int)strtol(s, NULL, 10)` -/
def atoi (s : List Char) : ℤ := (strtol s).bmod (2 ^ 32)

/-- A text that the code uses, where it must not be `NULL`. -/
def text : Option (List Char) → Exec (List Char)
  | some s => .ok s
  | none => .error .nullDeref

/-- The token that `strtok_r` returned. -/
def nonNull (t : Option (List Char × List Char)) : Exec (List Char) := text (t.map Prod.fst)

/-! ### Files -/

section Files
variable (disk : List Char → Option (List Char))

/-- `MAXLINE` -/
def maxLine : ℕ := 1024

/-- `FILENAME_MAX` -/
def filenameMax : ℕ := 4096

/-- `read_file`, of a file that `sprintf` has named; `none` is `NULL`. The terminator after a file of
    `MAXLINE` characters or more is out of bounds, as is that of a name of `FILENAME_MAX`. -/
def readFile (filename : List Char) : Exec (Option (List Char)) :=
  if filename.length < filenameMax then
    match disk filename with
    | none => .ok none
    | some file =>
      if file.length < maxLine then .ok (some (file.takeWhile fun c => c ≠ '\x00'))
      else .error .outOfBounds
  else .error .outOfBounds

/-- `CONFIG_PATH` -/
def configPath : List Char := "/home/ben/projects/dtlsr/configs".toList

/-- `"%s.id"` -/
def idName (protocol : List Char) : List Char := protocol ++ ".id".toList

/-- `"%s/%s/n%s"` -/
def confName (config nodeId : List Char) : List Char :=
  configPath ++ "/".toList ++ config ++ "/n".toList ++ nodeId

def readNodeIdStr (protocol : List Char) : Exec (Option (List Char)) := readFile disk (idName protocol)

def readNodeConfFile (protocol config : List Char) : Exec (Option (List Char)) := do
  let nodeId ← text (← readNodeIdStr disk protocol)
  readFile disk (confName config nodeId)

def getNodeId (protocol : List Char) : Exec ℤ := do
  pure (atoi (← text (← readNodeIdStr disk protocol)))

/-- A file can be read, and holds the text `s`. -/
structure Reads (filename s : List Char) : Prop where
  name : filename.length < filenameMax
  file : ∃ file, disk filename = some file ∧ file.length < maxLine ∧
    file.takeWhile (fun c => c ≠ '\x00') = s

variable {disk}

theorem readFile_iff {filename s : List Char} :
    readFile disk filename = .ok (some s) ↔ Reads disk filename s := by
  unfold readFile
  constructor
  · intro h
    split at h
    · rename_i hname
      split at h
      · cases h
      · rename_i file hfile
        split at h
        · rename_i hlen
          cases h
          exact ⟨hname, file, hfile, hlen, rfl⟩
        · cases h
    · cases h
  · rintro ⟨hname, file, hfile, hlen, rfl⟩
    rw [if_pos hname, hfile]
    exact if_pos hlen

theorem text_ok_iff {o : Option (List Char)} {s : List Char} : text o = .ok s ↔ o = some s := by
  cases o <;> simp [text]

theorem readNodeConfFile_iff {protocol config contents : List Char} :
    readNodeConfFile disk protocol config = .ok (some contents) ↔
      ∃ id, Reads disk (idName protocol) id ∧ Reads disk (confName config id) contents := by
  constructor
  · intro h
    obtain ⟨o, hid, h⟩ := bind_ok_iff.mp h
    obtain ⟨id, ho, h⟩ := bind_ok_iff.mp h
    rw [text_ok_iff.mp ho] at hid
    exact ⟨id, readFile_iff.mp hid, readFile_iff.mp h⟩
  · rintro ⟨id, hid, hconf⟩
    rw [readNodeConfFile, readNodeIdStr, readFile_iff.mpr hid, ok_bind, text, ok_bind]
    exact readFile_iff.mpr hconf

theorem getNodeId_eq {protocol id : List Char} (h : Reads disk (idName protocol) id) :
    getNodeId disk protocol = .ok (atoi id) := by
  rw [getNodeId, readNodeIdStr, readFile_iff.mpr h]
  rfl

end Files

/-! ### Parsing -/

section Code
variable {M : Type}

/-- `strcpy(this->interfaces[i], interface)`: the first `n` slots point into the arena, and the others
    nowhere. A name that runs into the slot after its own counts as out of bounds. -/
def copyInterface (n : ℕ) (interfaces : Fin maxNodeFan → String) (i : ℕ) (interface : List Char) :
    Exec (Fin maxNodeFan → String) :=
  if i < n then
    if interface.length < ifaceStrMaxLen then write interfaces i (String.ofList interface)
    else .error .outOfBounds
  else .error .uninit

/-- `inet_pton(AF_INET, src, &ips[i])` writes nothing if it fails. -/
def copyAddr (ips : Fin maxNodeFan → Ip) (i : ℕ) (src : List Char) : Exec (Fin maxNodeFan → Ip) := do
  let old ← read ips i
  write ips i ((inetPton src).getD old)

/-- `parse_link`, where `n` interface slots are prepared. -/
def parseLink (n : ℕ) (pch : List Char) (i : ℕ) (this : LocalNode M) : Exec (LocalNode M) := do
  let interface := strtokR linkSep pch
  let srcAddr := interface.bind fun t => strtokR linkSep t.2
  let dstAddr := srcAddr.bind fun t => strtokR linkSep t.2
  let dstId := dstAddr.bind fun t => strtokR linkSep t.2
  let interfaces ← copyInterface n this.interfaces i (← nonNull interface)
  let sourceIps ← copyAddr this.node.sourceIps i (← nonNull srcAddr)
  let neighbourIps ← copyAddr this.node.neighbourIps i (← nonNull dstAddr)
  let neighbourIds ← write this.node.neighbourIds i (atoi (← nonNull dstId))
  pure { this with node := { this.node with sourceIps, neighbourIps, neighbourIds }, interfaces }

/-- Derive the number of neighbours from the neighbour file contents. -/
def parseNNeighbours : List Char → ℕ
  | [] => 0
  | c :: rest => if c = '\n' then parseNNeighbours rest + 1 else parseNNeighbours rest

/-- The first `n` timers are made; `mem` is what the memory of the node holds. -/
def nodeLocalAlloc (mem : LocalNode M) (id : ℤ) (n : ℕ) : Exec (LocalNode M) := do
  let node ← nodeInit mem.node n
  pure
    { mem with
      node := { node with id }
      timers := fun i =>
        if (i : ℕ) < n then eventTimerAppend (.timer i) 0 heartbeatTimeout else mem.timers i }

/-- One round of the loop of `local_node_init`. -/
def initLink (b : Build) (n now : ℕ) (pch : List Char) (i : ℕ) (this : LocalNode M) :
    Exec (LocalNode M) := do
  let this ← parseLink n pch i this
  -- links start DOWN
  let linkStatuses ← write this.node.linkStatuses i .linkDown
  let ts ← read this.lsTimeSeries i
  let ts ← if b = .dtlsr then tsInit ts .linkDown now else pure ts
  let lsTimeSeries ← write this.lsTimeSeries i ts
  let timers ← write this.timers i (eventTimerDisarm (← read this.timers i))
  pure { this with node := { this.node with linkStatuses }, lsTimeSeries, timers }

/-- `local_node_init` from where the files have been read. -/
def localNodeFrom (b : Build) (mem : LocalNode M) (id : ℤ) (contents : List Char) (now : ℕ) :
    Exec (LocalNode M) := do
  let n := parseNNeighbours contents
  let this ← nodeLocalAlloc mem id n
  forTokens newline (initLink b n now) (contents.length + 1) contents 0 this

def localNodeInit (b : Build) (mem : LocalNode M) (disk : List Char → Option (List Char))
    (protocol config : List Char) (now : ℕ) : Exec (LocalNode M) := do
  let contents ← text (← readNodeConfFile disk protocol config)
  let id ← getNodeId disk protocol
  localNodeFrom b mem id contents now

end Code

/-- The rows that the loop of `local_node_init` hands to `parse_link`, with their slots. -/
def handed (contents : List Char) : Exec (List (List Char × ℕ)) :=
  forTokens newline (fun pch i l => pure (l ++ [(pch, i)])) (contents.length + 1) contents 0 []

/-! ### The two scans -/

theorem parseNNeighbours_eq (contents : List Char) :
    parseNNeighbours contents = contents.countP newline := by
  induction contents with
  | nil => rfl
  | cons c rest ih => by_cases hc : c = '\n' <;> simp [parseNNeighbours, newline, hc, ih]

/-- There are as many rows as are counted exactly if one line is empty. -/
theorem rows_counted_iff (contents : List Char) :
    (tokens newline contents).length = parseNNeighbours contents ↔
      (contents.splitOn '\n').count [] = 1 := by
  have hsplit : contents.splitOn '\n' = contents.splitOnP newline := by
    rw [List.splitOn_eq_splitOnP]
    congr 1
  rw [hsplit, ← tokens_length_iff, parseNNeighbours_eq]

theorem handed_eq (contents : List Char) :
    handed contents = .ok (tokens newline contents).zipIdx := by
  have hfold : ∀ (l done : List (List Char × ℕ)),
      l.foldlM (fun st t => (pure (st ++ [(t.1, t.2)]) : Exec _)) done = .ok (done ++ l) := by
    intro l
    induction l with
    | nil =>
      intro done
      rw [List.append_nil]
      rfl
    | cons t l ih =>
      intro done
      rw [List.foldlM_cons, pure_eq_ok, ok_bind, ih]
      simp
  rw [handed, forTokens_eq (Nat.lt_succ_self _), hfold, List.nil_append]

/-- The configuration's links are counted as they are parsed exactly for the files of which one line is
    empty, where a newline at the end begins an empty line: the usual file, which ends with a newline
    and has no other empty line, or one without a newline at the end and with one empty line. -/
theorem links_counted_iff (contents : List Char) :
    (∃ rows, handed contents = .ok rows ∧ rows.length = parseNNeighbours contents ∧
      rows.map Prod.snd = List.range (parseNNeighbours contents)) ↔
    (contents.splitOn '\n').count [] = 1 := by
  rw [← rows_counted_iff, handed_eq]
  constructor
  · rintro ⟨rows, hrows, hlen, -⟩
    cases hrows
    rwa [List.length_zipIdx] at hlen
  · intro hlen
    refine ⟨_, rfl, by rw [List.length_zipIdx, hlen], ?_⟩
    rw [← hlen, List.zipIdx_map_snd, List.range_eq_range']

/-- The row of a file without a newline at the end is handed on, and not counted. -/
theorem last_row_not_counted : ¬∀ contents : List Char, ∃ rows, handed contents = .ok rows ∧
    rows.length = parseNNeighbours contents ∧
    rows.map Prod.snd = List.range (parseNNeighbours contents) := by
  intro h
  obtain ⟨rows, hrows, hlen, -⟩ := h "eth0 - 10.0.1.1 - 10.0.1.2 - 2".toList
  have hone : handed "eth0 - 10.0.1.1 - 10.0.1.2 - 2".toList =
      .ok [("eth0 - 10.0.1.1 - 10.0.1.2 - 2".toList, 0)] := by decide
  have hnone : parseNNeighbours "eth0 - 10.0.1.1 - 10.0.1.2 - 2".toList = 0 := by decide
  rw [hone] at hrows
  cases hrows
  rw [hnone] at hlen
  cases hlen

/-! ### The rows in the node -/

/-- What a row says, where it is well formed. -/
def linkRow (pch : List Char) : Option LinkRow :=
  match tokens linkSep pch with
  | interface :: srcAddr :: dstAddr :: dstId :: _ => do
    if interface.length < ifaceStrMaxLen then
      pure
        { interface := String.ofList interface, srcAddr := ← inetPton srcAddr,
          dstAddr := ← inetPton dstAddr, dstId := atoi dstId }
    else none
  | _ => none

example : linkRow "eth0 - 10.0.1.1 - 10.0.1.2 - 2".toList = some
    { interface := "eth0", srcAddr := inetAddr 10 0 1 1, dstAddr := inetAddr 10 0 1 2, dstId := 2 } := by
  rfl

section Rows
variable {M : Type} {pch : List Char} {n : ℕ}

/-- A word of a row. -/
def word (pch : List Char) (k : ℕ) : List Char := (tokens linkSep pch)[k]?.getD []

/-- `parse_link` finds four words, of which the name fits. -/
def RowReadable (pch : List Char) : Prop :=
  4 ≤ (tokens linkSep pch).length ∧ (word pch 0).length < ifaceStrMaxLen

theorem nonNull_ok_iff {t : Option (List Char × List Char)} {w : List Char} :
    nonNull t = .ok w ↔ ∃ saved, t = some (w, saved) := by
  rcases t with - | ⟨w', saved⟩ <;> simp [nonNull, text]

theorem read_slot {α : Type} (a : Fin maxNodeFan → α) (k : Fin maxNodeFan) :
    read a ((k : ℕ) : ℤ) = .ok (a k) := read_of_eq a k rfl

theorem write_slot {α : Type} (a : Fin maxNodeFan → α) (k : Fin maxNodeFan) (x : α) :
    write a ((k : ℕ) : ℤ) x = .ok (Function.update a k x) := write_of_eq a k rfl x

theorem copyInterface_ok_iff {interfaces interfaces' : Fin maxNodeFan → String} (k : Fin maxNodeFan)
    (interface : List Char) : copyInterface n interfaces k interface = .ok interfaces' ↔
      (k : ℕ) < n ∧ interface.length < ifaceStrMaxLen ∧
        interfaces' = Function.update interfaces k (String.ofList interface) := by
  unfold copyInterface
  split_ifs with hk hlen
  · rw [write_slot, Except.ok.injEq]
    exact ⟨fun h => ⟨hk, hlen, h.symm⟩, fun h => h.2.2.symm⟩
  · exact ⟨nofun, fun h => absurd h.2.1 hlen⟩
  · exact ⟨nofun, fun h => absurd h.1 hk⟩

theorem copyAddr_eq (ips : Fin maxNodeFan → Ip) (k : Fin maxNodeFan) (src : List Char) :
    copyAddr ips k src = .ok (Function.update ips k ((inetPton src).getD (ips k))) := by
  rw [copyAddr, read_slot, ok_bind, write_slot]

/-- The node with a row in its slot. An address that `inet_pton` rejects leaves the old one there. -/
def setLink (k : Fin maxNodeFan) (pch : List Char) (this : LocalNode M) : LocalNode M :=
  { this with
    node := { this.node with
      sourceIps := Function.update this.node.sourceIps k
        ((inetPton (word pch 1)).getD (this.node.sourceIps k))
      neighbourIps := Function.update this.node.neighbourIps k
        ((inetPton (word pch 2)).getD (this.node.neighbourIps k))
      neighbourIds := Function.update this.node.neighbourIds k (atoi (word pch 3)) }
    interfaces := Function.update this.interfaces k (String.ofList (word pch 0)) }

theorem parseLink_ok_iff (k : Fin maxNodeFan) {this this' : LocalNode M} :
    parseLink n pch k this = .ok this' ↔
      (k : ℕ) < n ∧ RowReadable pch ∧ this' = setLink k pch this := by
  constructor
  · intro h
    obtain ⟨interface, h1, h⟩ := bind_ok_iff.mp h
    obtain ⟨interfaces, hcopy, h⟩ := bind_ok_iff.mp h
    obtain ⟨src, h2, h⟩ := bind_ok_iff.mp h
    obtain ⟨sourceIps, hsrc, h⟩ := bind_ok_iff.mp h
    obtain ⟨dst, h3, h⟩ := bind_ok_iff.mp h
    obtain ⟨neighbourIps, hdst, h⟩ := bind_ok_iff.mp h
    obtain ⟨id, h4, h⟩ := bind_ok_iff.mp h
    obtain ⟨neighbourIds, hid, h⟩ := bind_ok_iff.mp h
    cases h
    obtain ⟨s1, h1⟩ := nonNull_ok_iff.mp h1
    simp only [h1, Option.bind_some] at h2 h3 h4
    obtain ⟨s2, h2⟩ := nonNull_ok_iff.mp h2
    simp only [h2, Option.bind_some] at h3 h4
    obtain ⟨s3, h3⟩ := nonNull_ok_iff.mp h3
    simp only [h3, Option.bind_some] at h4
    obtain ⟨s4, h4⟩ := nonNull_ok_iff.mp h4
    have htokens : tokens linkSep pch = interface :: src :: dst :: id :: tokens linkSep s4 := by
      rw [tokens_of_strtokR h1, tokens_of_strtokR h2, tokens_of_strtokR h3, tokens_of_strtokR h4]
    obtain ⟨hk, hlen, rfl⟩ := (copyInterface_ok_iff k interface).mp hcopy
    rw [copyAddr_eq, Except.ok.injEq] at hsrc hdst
    rw [write_slot, Except.ok.injEq] at hid
    subst hsrc hdst hid
    refine ⟨hk, ⟨by rw [htokens]; simp, by simpa [word, htokens] using hlen⟩, ?_⟩
    simp [setLink, word, htokens]
  · rintro ⟨hk, ⟨hfour, hlen⟩, rfl⟩
    match htokens : tokens linkSep pch, hfour with
    | interface :: src :: dst :: id :: rest, _ =>
      obtain ⟨s1, h1, ht1⟩ := strtokR_of_tokens htokens
      obtain ⟨s2, h2, ht2⟩ := strtokR_of_tokens ht1
      obtain ⟨s3, h3, ht3⟩ := strtokR_of_tokens ht2
      obtain ⟨s4, h4, -⟩ := strtokR_of_tokens ht3
      have hlen : interface.length < ifaceStrMaxLen := by simpa [word, htokens] using hlen
      have hcopy : copyInterface n this.interfaces k interface =
          .ok (Function.update this.interfaces k (String.ofList interface)) :=
        (copyInterface_ok_iff k interface).mpr ⟨hk, hlen, rfl⟩
      simp only [parseLink, h1, h2, h3, h4, Option.bind_some, nonNull, text, Option.map_some, hcopy,
        copyAddr_eq, write_slot, ok_bind, pure_eq_ok]
      simp [setLink, word, htokens]

/-- One more row fills the slot after those of the rows before it. -/
theorem update_elim {α β : Type} {done : List β} {k : Fin maxNodeFan} (hk : (k : ℕ) = done.length)
    (old : Fin maxNodeFan → α) (f : Fin maxNodeFan → β → α) (row : β) :
    Function.update (fun j : Fin maxNodeFan => done[(j : ℕ)]?.elim (old j) (f j)) k (f k row) =
      fun j : Fin maxNodeFan => (done ++ [row])[(j : ℕ)]?.elim (old j) (f j) := by
  funext j
  rcases eq_or_ne j k with rfl | hne
  · rw [Function.update_self, hk, List.getElem?_concat_length, Option.elim_some]
  · have hj : (j : ℕ) ≠ done.length := fun h => hne (Fin.ext (h.trans hk.symm))
    rw [Function.update_of_ne hne]
    rcases Nat.lt_or_gt_of_ne hj with hlt | hgt
    · rw [List.getElem?_append_left hlt]
    · rw [List.getElem?_eq_none hgt.le, List.getElem?_eq_none (by simpa using hgt)]

variable {b : Build} {now : ℕ} {this this' : LocalNode M}

/-- Only the rows that were counted have a slot. -/
theorem initLink_lt {i : ℕ} (h : initLink b n now pch i this = .ok this') : i < n := by
  obtain ⟨t, hlink, -⟩ := bind_ok_iff.mp h
  obtain ⟨interface, -, hlink⟩ := bind_ok_iff.mp hlink
  obtain ⟨interfaces, hcopy, -⟩ := bind_ok_iff.mp hlink
  unfold copyInterface at hcopy
  split at hcopy
  · assumption
  · cases hcopy

/-- The series of a link that is begun DOWN. -/
def begun (b : Build) (now : ℕ) (ts : LSTimeSeries) : LSTimeSeries :=
  if b = .dtlsr then (tsInit ts .linkDown now).toOption.getD ts else ts

theorem begun_dtlsr (now : ℕ) (ts : LSTimeSeries) :
    tsInit ts .linkDown now = .ok (begun .dtlsr now ts) := by
  obtain ⟨ts', hts, -⟩ := tsInit_recorded ts .linkDown now
  rw [begun, if_pos rfl, hts]
  rfl

/-- The node with the rows in its first slots. -/
def withRows (b : Build) (now : ℕ) (this : LocalNode M) (rows : List (List Char)) : LocalNode M :=
  { this with
    node := { this.node with
      sourceIps := fun j => rows[(j : ℕ)]?.elim (this.node.sourceIps j) fun row =>
        (inetPton (word row 1)).getD (this.node.sourceIps j)
      neighbourIps := fun j => rows[(j : ℕ)]?.elim (this.node.neighbourIps j) fun row =>
        (inetPton (word row 2)).getD (this.node.neighbourIps j)
      neighbourIds := fun j => rows[(j : ℕ)]?.elim (this.node.neighbourIds j) fun row =>
        atoi (word row 3)
      linkStatuses := fun j => rows[(j : ℕ)]?.elim (this.node.linkStatuses j) fun _ => .linkDown }
    timers := fun j => rows[(j : ℕ)]?.elim (this.timers j) fun _ => eventTimerDisarm (this.timers j)
    lsTimeSeries := fun j => rows[(j : ℕ)]?.elim (this.lsTimeSeries j) fun _ =>
      begun b now (this.lsTimeSeries j)
    interfaces := fun j => rows[(j : ℕ)]?.elim (this.interfaces j) fun row =>
      String.ofList (word row 0) }

/-- A round of the loop reads one more row. -/
theorem initLink_ok_iff {rows : List (List Char)} (hlen : rows.length < maxNodeFan) :
    initLink b n now pch rows.length (withRows b now this rows) = .ok this' ↔
      rows.length < n ∧ RowReadable pch ∧ this' = withRows b now this (rows ++ [pch]) := by
  obtain ⟨k, hk⟩ : ∃ k : Fin maxNodeFan, (k : ℕ) = rows.length := ⟨⟨_, hlen⟩, rfl⟩
  have hnone : rows[(k : ℕ)]? = none := List.getElem?_eq_none hk.ge
  have hround (hkn : (k : ℕ) < n) (hrow : RowReadable pch) :
      initLink b n now pch k (withRows b now this rows) =
        .ok (withRows b now this (rows ++ [pch])) := by
    rw [initLink, (parseLink_ok_iff k).mpr ⟨hkn, hrow, rfl⟩, ok_bind]
    simp only [write_slot, read_slot, ok_bind, pure_eq_ok, setLink, withRows, hnone, Option.elim_none]
    have hlast : ∀ {α : Type} (old : Fin maxNodeFan → α) (f : Fin maxNodeFan → List Char → α),
        Function.update (fun j : Fin maxNodeFan => rows[(j : ℕ)]?.elim (old j) (f j)) k (f k pch) =
          fun j : Fin maxNodeFan => (rows ++ [pch])[(j : ℕ)]?.elim (old j) (f j) :=
      fun old f => update_elim hk old f pch
    cases b with
    | dtlsr =>
      rw [if_pos rfl, begun_dtlsr, ok_bind]
      simp only [hlast]
    | lsr =>
      have hsame : ∀ ts, begun .lsr now ts = ts := fun _ => rfl
      rw [if_neg (by decide)]
      simp only [hsame, hlast]
  rw [← hk]
  constructor
  · intro h
    obtain ⟨t, hlink, -⟩ := bind_ok_iff.mp h
    obtain ⟨hkn, hrow, -⟩ := (parseLink_ok_iff k).mp hlink
    exact ⟨hkn, hrow, Except.ok.inj (h.symm.trans (hround hkn hrow))⟩
  · rintro ⟨hkn, hrow, rfl⟩
    exact hround hkn hrow

theorem foldlM_initLink_ok_iff (hn : n ≤ maxNodeFan) (rows : List (List Char)) :
    ∀ {this' : LocalNode M}, rows.zipIdx.foldlM (fun this t => initLink b n now t.1 t.2 this) this =
      .ok this' ↔ rows.length ≤ n ∧ (∀ pch ∈ rows, RowReadable pch) ∧ this' = withRows b now this rows := by
  induction rows using List.reverseRecOn with
  | nil =>
    intro this'
    rw [List.zipIdx_nil, List.foldlM_nil, pure_eq_ok, Except.ok.injEq, eq_comm]
    simp [withRows]
  | append_singleton rows pch ih =>
    intro this'
    rw [List.zipIdx_append, List.foldlM_append, bind_ok_iff]
    simp only [List.zipIdx_singleton, List.foldlM_cons, List.foldlM_nil, Nat.zero_add, bind_pure]
    constructor
    · rintro ⟨t, hrows, hlast⟩
      obtain ⟨-, hread, rfl⟩ := ih.mp hrows
      have hlt := initLink_lt hlast
      obtain ⟨-, hrow, rfl⟩ := (initLink_ok_iff (hlt.trans_le hn)).mp hlast
      refine ⟨by simpa using hlt, fun row hmem => ?_, rfl⟩
      rcases List.mem_append.mp hmem with hmem | hmem
      · exact hread row hmem
      · rwa [List.mem_singleton.mp hmem]
    · rintro ⟨hlen, hread, rfl⟩
      have hlt : rows.length < n := by simpa using hlen
      refine ⟨_, ih.mpr ⟨hlt.le, fun row hmem => hread row (List.mem_append_left _ hmem), rfl⟩, ?_⟩
      exact (initLink_ok_iff (hlt.trans_le hn)).mpr ⟨hlt, hread pch (by simp), rfl⟩

/-- The texts that are parsed: no more rows than are counted, nor than there may be links, and each of four
    words with a name that fits. -/
structure Readable (contents : List Char) : Prop where
  fan : parseNNeighbours contents ≤ maxNodeFan
  counted : (tokens newline contents).length ≤ parseNNeighbours contents
  rows : ∀ pch ∈ tokens newline contents, RowReadable pch

/-- What the node is then: the rows fill the first slots, and the others keep what the memory held. But
    the timers of all slots that are counted are new, and only those of rows are disarmed. -/
def readNode (b : Build) (mem : LocalNode M) (id : ℤ) (contents : List Char) (now : ℕ) : LocalNode M :=
  let n := parseNNeighbours contents
  withRows b now
    { mem with
      node := { mem.node with id, state := .nodeSeen, nNeighbours := n, timestamp := 0 }
      timers := fun i =>
        if (i : ℕ) < n then eventTimerAppend (.timer i) 0 heartbeatTimeout else mem.timers i }
    (tokens newline contents)

theorem localNodeFrom_rows {mem : LocalNode M} {id : ℤ} {contents : List Char}
    (hn : parseNNeighbours contents ≤ maxNodeFan) : localNodeFrom b mem id contents now = .ok this' ↔
      (tokens newline contents).length ≤ parseNNeighbours contents ∧
        (∀ pch ∈ tokens newline contents, RowReadable pch) ∧
        this' = readNode b mem id contents now := by
  rw [localNodeFrom, nodeLocalAlloc, nodeInit, if_neg (by omega), ok_bind, pure_eq_ok, ok_bind,
    forTokens_eq (Nat.lt_succ_self _), foldlM_initLink_ok_iff hn]
  rfl

theorem localNodeFrom_iff {mem : LocalNode M} {id : ℤ} {contents : List Char} :
    localNodeFrom b mem id contents now = .ok this ↔
      Readable contents ∧ this = readNode b mem id contents now := by
  by_cases hn : parseNNeighbours contents ≤ maxNodeFan
  · rw [localNodeFrom_rows hn]
    exact ⟨fun h => ⟨⟨hn, h.1, h.2.1⟩, h.2.2⟩, fun h => ⟨h.1.counted, h.1.rows, h.2⟩⟩
  · rw [localNodeFrom, nodeLocalAlloc, nodeInit, if_pos (by omega)]
    exact ⟨nofun, fun h => absurd h.1.fan hn⟩

variable {disk : List Char → Option (List Char)} {protocol config id contents : List Char}

theorem localNodeInit_eq_from {mem : LocalNode M} (hid : Reads disk (idName protocol) id)
    (hconf : Reads disk (confName config id) contents) :
    localNodeInit b mem disk protocol config now = localNodeFrom b mem (atoi id) contents now := by
  rw [localNodeInit, readNodeConfFile_iff.mpr ⟨id, hid, hconf⟩, ok_bind, text, ok_bind, getNodeId_eq hid,
    ok_bind]

/-- Exactly the files are read whose texts fit the buffer and can be parsed, and what the node is then. -/
theorem config_read_iff (b : Build) (mem : LocalNode M) (disk : List Char → Option (List Char))
    (protocol config : List Char) (now : ℕ) (this : LocalNode M) :
    localNodeInit b mem disk protocol config now = .ok this ↔
      ∃ id contents, Reads disk (idName protocol) id ∧ Reads disk (confName config id) contents ∧
        Readable contents ∧ this = readNode b mem (atoi id) contents now := by
  constructor
  · intro h
    obtain ⟨o, hconf, hrest⟩ := bind_ok_iff.mp h
    obtain ⟨contents, ho, -⟩ := bind_ok_iff.mp hrest
    rw [text_ok_iff.mp ho] at hconf
    obtain ⟨id, hid, hconf⟩ := readNodeConfFile_iff.mp hconf
    rw [localNodeInit_eq_from hid hconf] at h
    exact ⟨id, contents, hid, hconf, localNodeFrom_iff.mp h⟩
  · rintro ⟨id, contents, hid, hconf, hread⟩
    rw [localNodeInit_eq_from hid hconf]
    exact localNodeFrom_iff.mpr hread

theorem linkRow_some {row : LinkRow} (h : linkRow pch = some row) : RowReadable pch ∧
    String.ofList (word pch 0) = row.interface ∧ inetPton (word pch 1) = some row.srcAddr ∧
    inetPton (word pch 2) = some row.dstAddr ∧ atoi (word pch 3) = row.dstId := by
  unfold linkRow at h
  split at h
  · rename_i interface src dst id rest htokens
    split at h
    · rename_i hlen
      simp only [Option.bind_eq_bind, Option.bind_eq_some_iff, Option.pure_def, Option.some.injEq] at h
      obtain ⟨srcAddr, hsrc, dstAddr, hdst, rfl⟩ := h
      simp [RowReadable, word, htokens, hlen, hsrc, hdst]
    · cases h
  · cases h

theorem elim_of_forall₂ {α β γ : Type} {R : β → γ → Prop} {l : List β} {l' : List γ}
    (h : List.Forall₂ R l l') {f : β → α} {g : γ → α} (hfg : ∀ x y, R x y → f x = g y) (old : α) :
    ∀ i : ℕ, l[i]?.elim old f = l'[i]?.elim old g := by
  induction h with
  | nil => exact fun _ => rfl
  | cons hxy _ ih =>
    rintro (- | i)
    · exact hfg _ _ hxy
    · simpa using ih i

theorem elim_const {α β : Type} (rows : List β) (i : ℕ) (old new : α) :
    (rows[i]?.elim old fun _ => new) = if i < rows.length then new else old := by
  by_cases hi : i < rows.length
  · rw [List.getElem?_eq_getElem hi, if_pos hi, Option.elim_some]
  · rw [List.getElem?_eq_none (not_lt.mp hi), if_neg hi, Option.elim_none]

/-- The series that `local_node_init` begins. -/
theorem fill_begun (b : Build) (n now : ℕ) (ts : Fin maxNodeFan → LSTimeSeries) :
    fill maxNodeFan (fun i => if b = .dtlsr ∧ (i : ℕ) < n then tsInit (ts i) .linkDown now
      else pure (ts i)) = .ok fun j => if (j : ℕ) < n then begun b now (ts j) else ts j := by
  refine fill_ok_iff.mpr fun j => ?_
  cases b with
  | dtlsr =>
    by_cases hj : (j : ℕ) < n
    · simpa [hj] using begun_dtlsr now (ts j)
    · simp [hj]
  | lsr => simp [begun]

/-- A file whose rows are well formed and all counted sets the node up as the driver is taken to start
    from its rows. -/
theorem localNodeFrom_eq [Field M] {S : Setup M} {contents : List Char}
    (hrows : List.Forall₂ (fun pch row => linkRow pch = some row) (tokens newline contents) S.links)
    (hcount : (contents.splitOn '\n').count [] = 1) (now : ℕ) :
    localNodeFrom S.build S.this S.id contents now = Dtlsr.localNodeInit S now := by
  have hlength := hrows.length_eq
  have hn : parseNNeighbours contents = S.links.length := by
    rw [← hlength, (rows_counted_iff contents).mpr hcount]
  by_cases hlen : ((S.links.length : ℕ) : ℤ) > maxNodeFan
  · rw [localNodeFrom, Dtlsr.localNodeInit, nodeLocalAlloc, hn, nodeInit, if_pos hlen]
    rfl
  · have hread : ∀ pch ∈ tokens newline contents, RowReadable pch := ((List.forall₂_and_left _ _).mp
      (hrows.imp fun pch row hrow => ⟨(linkRow_some hrow).1, hrow⟩)).1
    have hfits : ∀ pch row, linkRow pch = some row → row.interface.toList.length < ifaceStrMaxLen := by
      intro pch row hrow
      obtain ⟨hreadable, hname, -⟩ := linkRow_some hrow
      rw [← hname, String.toList_ofList]
      exact hreadable.2
    have hnames : ∀ row ∈ S.links, row.interface.toList.length < ifaceStrMaxLen :=
      ((List.forall₂_and_left _ _).mp (hrows.flip.imp fun row pch hrow => ⟨hfits pch row hrow, hrow⟩)).1
    rw [(localNodeFrom_rows (by omega)).mpr ⟨by omega, hread, rfl⟩, Dtlsr.localNodeInit, nodeInit, if_neg hlen,
      ok_bind, copyNames, if_pos hnames, ok_bind, fill_begun, ok_bind, pure_eq_ok, readNode, withRows]
    have hsrc (j : Fin maxNodeFan) := elim_of_forall₂ hrows (f := fun row =>
      (inetPton (word row 1)).getD (S.this.node.sourceIps j)) (g := LinkRow.srcAddr)
      (fun pch row hrow => by rw [(linkRow_some hrow).2.2.1]; rfl) (S.this.node.sourceIps j) j
    have hdst (j : Fin maxNodeFan) := elim_of_forall₂ hrows (f := fun row =>
      (inetPton (word row 2)).getD (S.this.node.neighbourIps j)) (g := LinkRow.dstAddr)
      (fun pch row hrow => by rw [(linkRow_some hrow).2.2.2.1]; rfl) (S.this.node.neighbourIps j) j
    have hid (j : Fin maxNodeFan) := elim_of_forall₂ hrows (f := fun row => atoi (word row 3))
      (g := LinkRow.dstId) (fun pch row hrow => (linkRow_some hrow).2.2.2.2) (S.this.node.neighbourIds j) j
    have hname (j : Fin maxNodeFan) := elim_of_forall₂ hrows
      (f := fun row => String.ofList (word row 0)) (g := LinkRow.interface)
      (fun pch row hrow => (linkRow_some hrow).2.1) (S.this.interfaces j) j
    have htimers : ∀ j : Fin maxNodeFan, (if (j : ℕ) < S.links.length then eventTimerDisarm
        (if (j : ℕ) < S.links.length then eventTimerAppend (.timer j) 0 heartbeatTimeout
          else S.this.timers j)
      else if (j : ℕ) < S.links.length then eventTimerAppend (.timer j) 0 heartbeatTimeout
      else S.this.timers j) = if (j : ℕ) < S.links.length then
        eventTimerDisarm (eventTimerAppend (.timer j) 0 heartbeatTimeout) else S.this.timers j := by
      intro j
      split <;> rfl
    simp only [hsrc, hdst, hid, hname, elim_const, hn, hlength, htimers]

end Rows

end ConfigFile

end Dtlsr
