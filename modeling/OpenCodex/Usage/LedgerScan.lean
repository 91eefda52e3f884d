import OpenCodex.Data.Bytes
import OpenCodex.Data.Machine
import OpenCodex.Data.RollingWindow

/-!
# Scanning a ledger that grows

`scanUsageLedgerCooperatively` reads the ledger from where the scan before it stopped: behind the last
newline it had seen.  It frames the bytes into lines as they come in chunks, hands the rows of the
complete lines to `onEntry`, and ends with the place to go on at and the digest of the last bytes
before it (`committedTail`).  The next scan reads these bytes again, and refuses to go on when their
digest has changed.

The file is its bytes, and it only grows; how a chunk is cut off is any event's choice.  Decoding,
parsing and normalizing one line is a function `readRow`, and the digest is a function of bytes.
Identity checks, cancellation and the time spent are left out.

All scans of a file together deliver what one scan of it does, the rows of its complete lines
(`incremental_scans_deliver`).
-/

set_option autoImplicit false

open List Option

namespace Usage

variable {Row Digest : Type}

structure LedgerEnv (Row Digest : Type) where
  /-- `normalizePersistedUsageRow(JSON.parse(decoder.decode(line)))`, where none of it fails. -/
  readRow : List UInt8 → Option Row
  digest : List UInt8 → Digest
  chunkBytes : ℕ

def maxLineBytes : ℕ := 1024 * 1024

def boundaryDigestBytes : ℕ := 64 * 1024

def lineFeed : UInt8 := 0x0a

def isJsonWhitespace (line : List UInt8) : Bool :=
  line.all fun byte ↦ byte == 0x20 || byte == 0x09 || byte == 0x0d

/-! ## One scan -/

abbrev Window := RollingWindow UInt8

def freshWindow : Window := ⟨boundaryDigestBytes, fun _ ↦ 0, 0, 0⟩

structure LedgerScan (Row : Type) where
  scanEnd : ℕ
  /-- How far the chunks have been taken in. -/
  position : ℕ
  processedThroughBytes : ℕ
  /-- The bytes of `line` below `lineLength`. -/
  line : List UInt8 := []
  droppingOversizedLine : Bool := false
  committedTail : Window
  pendingTail : Window := freshWindow
  pendingLineBytes : ℕ := 0
  /-- What `onEntry` was called with. -/
  entries : List Row := []
  invalidRows : ℕ := 0
  oversizedRows : ℕ := 0

namespace LedgerScan

variable (E : LedgerEnv Row Digest) (s : LedgerScan Row)

def publishLine : LedgerScan Row :=
  if s.line = [] ∨ isJsonWhitespace s.line = true then s
  else
    match E.readRow s.line with
    | some entry => { s with entries := s.entries ++ [entry] }
    | none => { s with invalidRows := s.invalidRows + 1 }

/-- The bytes up to the next newline, or up to the end of the chunk. -/
def takeSegment (segment : List UInt8) : LedgerScan Row :=
  let s := { s with
    position := s.position + segment.length
    pendingTail := s.pendingTail.append segment
    pendingLineBytes := min boundaryDigestBytes (s.pendingLineBytes + segment.length) }
  if s.droppingOversizedLine then s
  else if maxLineBytes < s.line.length + segment.length then
    { s with oversizedRows := s.oversizedRows + 1, droppingOversizedLine := true, line := [] }
  else { s with line := s.line ++ segment }

/-- A newline. -/
def endLine : LedgerScan Row :=
  let committed := if boundaryDigestBytes ≤ s.pendingLineBytes + 1 then s.committedTail.reset
    else s.committedTail
  let s := { s with
    position := s.position + 1
    processedThroughBytes := s.position + 1
    committedTail := (committed.appendWindow s.pendingTail).appendByte lineFeed
    pendingTail := s.pendingTail.reset
    pendingLineBytes := 0 }
  let s := if s.droppingOversizedLine then { s with droppingOversizedLine := false }
    else s.publishLine E
  { s with line := [] }

/-- The loop over a chunk; the segment before the next newline is being looked for. -/
def readChunk : LedgerScan Row → List UInt8 → List UInt8 → LedgerScan Row
  | s, segment, [] => s.takeSegment segment
  | s, segment, byte :: chunk =>
    if byte = lineFeed then readChunk ((s.takeSegment segment).endLine E) [] chunk
    else readChunk s (segment ++ [byte]) chunk

end LedgerScan

inductive RebuildReason where
  | shrink
  | boundaryMismatch
  | contentChanged

def digestOf (E : LedgerEnv Row Digest) (w : Window) : Digest :=
  E.digest (w.stretches.1 ++ w.stretches.2)

/-- The bytes whose digest a scan is resumed with. -/
def boundaryOf (file : List UInt8) (startAtBytes : ℕ) : List UInt8 :=
  (file.take startAtBytes).drop (startAtBytes - boundaryDigestBytes)

/-- The checks at the start; the boundary is read in pieces. -/
def openScan [DecidableEq Digest] (E : LedgerEnv Row Digest) (file : List UInt8)
    (resume : Option (ℕ × Digest)) (pieces : List (List UInt8)) :
    Except RebuildReason (LedgerScan Row) :=
  match resume with
  | none => .ok { scanEnd := file.length, position := 0, processedThroughBytes := 0
                  committedTail := freshWindow }
  | some (startAtBytes, expected) =>
    if file.length < startAtBytes then .error .shrink
    else if 0 < startAtBytes ∧ file[startAtBytes - 1]? ≠ some lineFeed then .error .boundaryMismatch
    else
      let committedTail := pieces.foldl .append freshWindow
      if digestOf E committedTail ≠ expected then .error .contentChanged
      else .ok { scanEnd := file.length, position := startAtBytes
                 processedThroughBytes := startAtBytes, committedTail := committedTail }

/-! ## Scan after scan -/

structure UsageLedger (Row Digest : Type) where
  file : List UInt8 := []
  /-- What the last scan ended with. -/
  resume : Option (ℕ × Digest) := none
  scan : Option (LedgerScan Row) := none
  /-- What the finished scans delivered. -/
  delivered : List Row := []
  /-- The size of the file at the last scan. -/
  scannedTo : ℕ := 0

inductive LedgerEvent where
  | grow (bytes : List UInt8)
  | open (pieces : List (List UInt8))
  /-- A chunk of so many bytes is read. -/
  | read (bytes : ℕ)
  | finish

def ledgerStep [DecidableEq Digest] (E : LedgerEnv Row Digest) (s : UsageLedger Row Digest) :
    LedgerEvent → Option (UsageLedger Row Digest)
  | .grow bytes => some { s with file := s.file ++ bytes }
  | .open pieces =>
    if s.scan.isSome ∨ pieces.flatten ≠ boundaryOf s.file ((s.resume.map Prod.fst).getD 0) then none
    else
      match openScan E s.file s.resume pieces with
      | .ok scan => some { s with scan := some scan }
      | .error _ => none
  | .read bytes => s.scan.bind fun scan ↦
    if 0 < bytes ∧ bytes ≤ min E.chunkBytes (scan.scanEnd - scan.position) then
      some { s with scan := some (scan.readChunk E [] (s.file.slice scan.position bytes)) }
    else none
  | .finish => s.scan.bind fun scan ↦
    if scan.position = scan.scanEnd then
      some { s with
        resume := some (scan.processedThroughBytes, digestOf E scan.committedTail)
        scan := none
        delivered := s.delivered ++ scan.entries
        scannedTo := scan.scanEnd }
    else none

def usageLedger [DecidableEq Digest] (E : LedgerEnv Row Digest) :
    Machine (UsageLedger Row Digest) LedgerEvent where
  init s := s = {}
  step := ledgerStep E

/-- One scan of a whole file, read in these chunks. -/
def scanOnce (E : LedgerEnv Row Digest) (chunks : List (List UInt8)) : LedgerScan Row :=
  chunks.foldl (fun s chunk ↦ s.readChunk E [] chunk)
    { scanEnd := chunks.flatten.length, position := 0, processedThroughBytes := 0
      committedTail := freshWindow }

/-! ## Rows of complete lines -/

section Rows

variable (E : LedgerEnv Row Digest)

def rowOf (line : List UInt8) : List Row :=
  if maxLineBytes < line.length ∨ line = [] ∨ isJsonWhitespace line = true then []
  else (E.readRow line).toList

/-- The rows of a text whose first line goes on from `line`; a last line without a newline has none. -/
def rowsIn : List UInt8 → List UInt8 → List Row
  | _, [] => []
  | line, byte :: text =>
    if byte = lineFeed then rowOf E line ++ rowsIn [] text else rowsIn (line ++ [byte]) text

def rowsOf (text : List UInt8) : List Row := rowsIn E [] text

theorem rowsIn_append {tail : List UInt8} (h : lineFeed ∉ tail) (line rest : List UInt8) :
    rowsIn E line (tail ++ rest) = rowsIn E (line ++ tail) rest := by
  induction tail generalizing line with
  | nil => rw [nil_append, append_nil]
  | cons byte tail ih =>
    obtain ⟨hbyte, htail⟩ := not_or.mp (mt mem_cons.mpr h)
    rw [cons_append, rowsIn, if_neg (Ne.symm hbyte), ih htail, append_assoc]
    rfl

/-- Complete lines, and their rows. -/
structure Committed (text : List UInt8) (rows : List Row) : Prop where
  ends : ∀ byte, text.getLast? = some byte → byte = lineFeed
  rows : ∀ rest, rowsOf E (text ++ rest) = rows ++ rowsOf E rest

variable {E}

theorem Committed.nil : Committed E [] [] := ⟨nofun, fun _ ↦ rfl⟩

variable {text : List UInt8} {rows : List Row}

theorem Committed.line {tail : List UInt8} (h : Committed E text rows) (htail : lineFeed ∉ tail) :
    Committed E (text ++ tail ++ [lineFeed]) (rows ++ rowOf E tail) where
  ends byte hbyte := by
    rw [getLast?_concat] at hbyte
    exact (some_inj.mp hbyte).symm
  rows rest := by
    rw [append_assoc, append_assoc, h.rows, rowsOf, rowsIn_append E htail, nil_append,
      singleton_append, rowsIn, if_pos rfl, append_assoc]
    rfl

theorem Committed.torn {tail : List UInt8} (h : Committed E text rows) (htail : lineFeed ∉ tail) :
    rowsOf E (text ++ tail) = rows := by
  rw [h.rows, rowsOf, ← append_nil tail, rowsIn_append E htail, rowsIn, append_nil]

end Rows

/-! ## What the windows show -/

/-- The window holds the last bytes of a text. -/
structure Shows (w : Window) (text : List UInt8) : Prop where
  fits : w.Fits
  capacity : w.capacity = boundaryDigestBytes
  contents : w.contents = text.rtake boundaryDigestBytes

section Windows

variable {w pending : Window} {text tail : List UInt8}

theorem shows_fresh : Shows freshWindow [] := ⟨⟨by decide, Nat.zero_le _⟩, rfl, rfl⟩

theorem Shows.reset (h : Shows w text) : Shows w.reset [] := ⟨RollingWindow.fits_reset h.fits, h.capacity, rfl⟩

theorem Shows.append (h : Shows w text) (segment : List UInt8) :
    Shows (w.append segment) (text ++ segment) := by
  obtain ⟨hfits, hcapacity, hcontents⟩ := RollingWindow.contents_append h.fits segment
  refine ⟨hfits, hcapacity.trans h.capacity, ?_⟩
  rw [hcontents, h.capacity, h.contents, rtake_rtake_append]

theorem Shows.appendAll (h : Shows w text) (pieces : List (List UInt8)) :
    Shows (pieces.foldl .append w) (text ++ pieces.flatten) := by
  induction pieces generalizing w text with
  | nil => simpa using h
  | cons piece pieces ih => simpa using ih (h.append piece)

theorem Shows.of_rtake (h : Shows w (text.rtake boundaryDigestBytes)) : Shows w text := by
  refine ⟨h.fits, h.capacity, h.contents.trans (rtake_of_length_le ?_)⟩
  rw [rtake, length_drop]
  omega

theorem Shows.appendByte (h : Shows w text) (byte : UInt8) :
    Shows (w.appendByte byte) (text ++ [byte]) := by
  rw [RollingWindow.appendByte_eq h.fits (by rw [h.capacity]; decide)]
  exact h.append [byte]

theorem Shows.appendWindow (h : Shows w text) (hpending : Shows pending tail) :
    Shows (w.appendWindow pending) (text ++ tail) := by
  obtain ⟨hfits, hcapacity, hcontents⟩ := RollingWindow.contents_appendWindow h.fits hpending.fits
  refine ⟨hfits, hcapacity.trans h.capacity, ?_⟩
  rw [hcontents, h.capacity, h.contents, hpending.contents, rtake_rtake_append]
  rcases Nat.le_total tail.length boundaryDigestBytes with hle | hle
  · rw [rtake_of_length_le hle]
  · rw [rtake_append_of_le hle, rtake_append_of_le (by
      rw [rtake, length_drop]; omega), rtake_of_length_le (by
      rw [rtake, length_drop]; omega)]

theorem Shows.commit (h : Shows w text) (hpending : Shows pending tail) :
    Shows (((if boundaryDigestBytes ≤ min boundaryDigestBytes tail.length + 1 then w.reset
      else w).appendWindow pending).appendByte lineFeed) (text ++ tail ++ [lineFeed]) := by
  split_ifs with hlong
  · have hshows := (h.reset.appendWindow hpending).appendByte lineFeed
    refine ⟨hshows.fits, hshows.capacity, ?_⟩
    have hlast : boundaryDigestBytes ≤ (tail ++ [lineFeed]).length := by
      rw [length_append, length_singleton]
      omega
    rw [hshows.contents, nil_append, append_assoc text]
    exact (rtake_append_of_le hlast).symm
  · exact (h.appendWindow hpending).appendByte lineFeed

theorem Shows.digestOf {E : LedgerEnv Row Digest} (h : Shows w text) :
    digestOf E w = E.digest (text.rtake boundaryDigestBytes) := by
  rw [Usage.digestOf, ← RollingWindow.contents_eq h.fits, h.contents]

end Windows

/-! ## One scan, byte for byte -/

variable {E : LedgerEnv Row Digest}

/-- A scan that has taken in a text: complete lines, whose rows it and the scans before it delivered,
and the beginning of a line. -/
structure Standing (E : LedgerEnv Row Digest) (earlier : List Row) (committed tail : List UInt8)
    (s : LedgerScan Row) : Prop where
  rows : Committed E committed (earlier ++ s.entries)
  torn : lineFeed ∉ tail
  position : s.position = (committed ++ tail).length
  processed : s.processedThroughBytes = committed.length
  committedTail : Shows s.committedTail committed
  pendingTail : Shows s.pendingTail tail
  pendingLineBytes : s.pendingLineBytes = min boundaryDigestBytes tail.length
  dropping : s.droppingOversizedLine = decide (maxLineBytes < tail.length)
  line : s.line = if maxLineBytes < tail.length then [] else tail

variable {earlier : List Row} {committed tail segment : List UInt8} {s : LedgerScan Row}

theorem Standing.takeSegment (h : Standing E earlier committed tail s) (hsegment : lineFeed ∉ segment) :
    Standing E earlier committed (tail ++ segment) (s.takeSegment segment) := by
  have htorn : lineFeed ∉ tail ++ segment := fun hmem ↦ (mem_append.mp hmem).elim h.torn hsegment
  have hposition : s.position + segment.length = (committed ++ (tail ++ segment)).length := by
    rw [h.position]
    simp only [length_append]
    omega
  have hpending : min boundaryDigestBytes (s.pendingLineBytes + segment.length) =
      min boundaryDigestBytes (tail ++ segment).length := by
    rw [h.pendingLineBytes, length_append]
    omega
  have hdropping := h.dropping
  have hline := h.line
  rw [LedgerScan.takeSegment]
  by_cases hlong : maxLineBytes < tail.length
  · have hmore : maxLineBytes < (tail ++ segment).length := by rw [length_append]; omega
    simp only [hlong, decide_true, if_true] at hdropping hline
    simp only [hdropping, if_true]
    exact ⟨h.rows, htorn, hposition, h.processed, h.committedTail, h.pendingTail.append segment, hpending,
      (decide_eq_true hmore).symm, by rw [if_pos hmore]; exact hline⟩
  · simp only [hlong, decide_false, if_false] at hdropping hline
    simp only [hdropping, hline, Bool.false_eq_true, if_false, ← length_append]
    split_ifs with hmore
    · exact ⟨h.rows, htorn, hposition, h.processed, h.committedTail, h.pendingTail.append segment,
        hpending, (decide_eq_true hmore).symm, by rw [if_pos hmore]⟩
    · exact ⟨h.rows, htorn, hposition, h.processed, h.committedTail, h.pendingTail.append segment,
        hpending, (decide_eq_false hmore).symm, by rw [if_neg hmore]⟩

theorem publishLine_entries (s : LedgerScan Row) (hline : ¬ maxLineBytes < s.line.length) :
    s.publishLine E = { s with
      entries := s.entries ++ rowOf E s.line, invalidRows := (s.publishLine E).invalidRows } := by
  rw [LedgerScan.publishLine, rowOf]
  by_cases hblank : s.line = [] ∨ isJsonWhitespace s.line = true
  · rw [if_pos hblank, if_pos (.inr hblank), append_nil]
  · rw [if_neg hblank, if_neg (not_or.mpr ⟨hline, hblank⟩)]
    cases E.readRow s.line with
    | some entry => rfl
    | none => rw [toList_none, append_nil]

theorem Standing.endLine (h : Standing E earlier committed tail s) :
    Standing E earlier (committed ++ tail ++ [lineFeed]) [] (s.endLine E) := by
  have hcommit := h.committedTail.commit h.pendingTail
  rw [← h.pendingLineBytes] at hcommit
  have hposition : s.position + 1 = (committed ++ tail ++ [lineFeed]).length := by
    rw [h.position]
    simp only [length_append, length_singleton]
  have hrows := h.rows.line h.torn
  have hdropping := h.dropping
  have hline := h.line
  rw [LedgerScan.endLine]
  simp only
  by_cases hlong : maxLineBytes < tail.length
  · simp only [hlong, decide_true] at hdropping
    rw [rowOf, if_pos (.inl hlong), append_nil] at hrows
    simp only [hdropping, if_true]
    exact ⟨hrows, not_mem_nil, by simpa using hposition, hposition, hcommit, h.pendingTail.reset,
      rfl, rfl, rfl⟩
  · simp only [hlong, decide_false, if_false] at hdropping hline
    simp only [hdropping, Bool.false_eq_true, if_false]
    rw [publishLine_entries _ (by simpa only [hline] using hlong)]
    refine ⟨?_, not_mem_nil, by simpa using hposition, hposition, hcommit, h.pendingTail.reset,
      rfl, rfl, rfl⟩
    simp only [hline]
    rwa [← append_assoc]

theorem Standing.start {w : Window} (hrows : Committed E committed earlier) (hw : Shows w committed)
    (scanEnd : ℕ) : Standing E earlier committed []
      { scanEnd := scanEnd, position := committed.length, processedThroughBytes := committed.length
        committedTail := w } :=
  ⟨by rwa [append_nil], not_mem_nil, by rw [append_nil], rfl, hw, shows_fresh, rfl, rfl,
    rfl⟩

/-- **The loop takes in a chunk byte for byte**, wherever it was cut off. -/
theorem Standing.readChunk (h : Standing E earlier committed tail s) (hsegment : lineFeed ∉ segment)
    (chunk : List UInt8) : ∃ committed' tail', committed ++ tail ++ segment ++ chunk =
      committed' ++ tail' ∧ Standing E earlier committed' tail' (s.readChunk E segment chunk) := by
  induction chunk generalizing committed tail segment s with
  | nil =>
    exact ⟨committed, tail ++ segment, by simp only [append_assoc, append_nil],
      h.takeSegment hsegment⟩
  | cons byte chunk ih =>
    rw [LedgerScan.readChunk]
    split_ifs with hbyte
    · obtain ⟨committed', tail', htext, hstanding⟩ :=
        ih (h.takeSegment hsegment).endLine not_mem_nil
      refine ⟨committed', tail', ?_, hstanding⟩
      rw [← htext, hbyte]
      simp only [append_assoc, append_nil, singleton_append]
    · obtain ⟨committed', tail', htext, hstanding⟩ := ih h (fun hmem ↦
        (mem_append.mp hmem).elim hsegment fun hlast ↦ hbyte (mem_singleton.mp hlast).symm)
      refine ⟨committed', tail', ?_, hstanding⟩
      rw [← htext]
      simp only [append_assoc, singleton_append]

theorem takeSegment_scanEnd (s : LedgerScan Row) (segment : List UInt8) :
    (s.takeSegment segment).scanEnd = s.scanEnd := by
  rw [LedgerScan.takeSegment]
  simp only
  split_ifs <;> rfl

theorem publishLine_scanEnd (s : LedgerScan Row) : (s.publishLine E).scanEnd = s.scanEnd := by
  rw [LedgerScan.publishLine]
  split_ifs
  · rfl
  · split <;> rfl

theorem endLine_scanEnd (s : LedgerScan Row) : (s.endLine E).scanEnd = s.scanEnd := by
  rw [LedgerScan.endLine]
  simp only
  split
  · rfl
  · exact publishLine_scanEnd _

theorem readChunk_scanEnd (s : LedgerScan Row) (segment chunk : List UInt8) :
    (s.readChunk E segment chunk).scanEnd = s.scanEnd := by
  induction chunk generalizing s segment with
  | nil => exact takeSegment_scanEnd s segment
  | cons byte chunk ih =>
    rw [LedgerScan.readChunk]
    split_ifs
    · rw [ih, endLine_scanEnd, takeSegment_scanEnd]
    · exact ih s _

theorem scanOnce_entries (chunks : List (List UInt8)) :
    (scanOnce E chunks).entries = rowsOf E chunks.flatten := by
  have hrun (chunks : List (List UInt8)) {committed tail : List UInt8} {s : LedgerScan Row}
      (h : Standing E [] committed tail s) : ∃ committed' tail', committed ++ tail ++ chunks.flatten =
        committed' ++ tail' ∧ Standing E [] committed' tail'
          (chunks.foldl (fun s chunk ↦ s.readChunk E [] chunk) s) := by
    induction chunks generalizing committed tail s with
    | nil => exact ⟨committed, tail, by simp, h⟩
    | cons chunk chunks ih =>
      obtain ⟨committed', tail', htext, hstanding⟩ := h.readChunk not_mem_nil chunk
      obtain ⟨committed'', tail'', htext', hstanding'⟩ := ih hstanding
      refine ⟨committed'', tail'', ?_, hstanding'⟩
      rw [← htext', ← htext, flatten_cons, append_nil, append_assoc _ chunk]
  obtain ⟨committed, tail, htext, hstanding⟩ :=
    hrun chunks (.start .nil shows_fresh chunks.flatten.length)
  rw [nil_append, nil_append] at htext
  rw [htext, hstanding.rows.torn hstanding.torn]
  rfl

/-! ## Runs -/

variable [DecidableEq Digest]

/-- What the last scan left: its place is behind the last complete line it saw. -/
def Resumes (E : LedgerEnv Row Digest) (s : UsageLedger Row Digest) (committed tail : List UInt8) :
    Prop :=
  s.file.take s.scannedTo = committed ++ tail ∧ lineFeed ∉ tail ∧ Committed E committed s.delivered ∧
    (s.resume = none ∧ committed = [] ∨
      s.resume = some (committed.length, E.digest (committed.rtake boundaryDigestBytes)))

structure Sound (E : LedgerEnv Row Digest) (s : UsageLedger Row Digest) : Prop where
  scanned : s.scannedTo ≤ s.file.length
  resumes : ∃ committed tail, Resumes E s committed tail
  running : ∀ scan, s.scan = some scan → scan.position ≤ scan.scanEnd ∧
    scan.scanEnd ≤ s.file.length ∧ ∃ committed tail, s.file.take scan.position = committed ++ tail ∧
      Standing E s.delivered committed tail scan

variable {file : List UInt8}

theorem boundaryOf_take {committed rest : List UInt8} (h : file = committed ++ rest) :
    boundaryOf file committed.length = committed.rtake boundaryDigestBytes := by
  rw [boundaryOf, h, take_left, rtake]

variable {pieces : List (List UInt8)}

/-- **The next scan goes on where the last one stopped.** -/
theorem openScan_ok {s : UsageLedger Row Digest} {committed tail : List UInt8}
    (h : Resumes E s committed tail)
    (hpieces : pieces.flatten = boundaryOf s.file ((s.resume.map Prod.fst).getD 0)) :
    ∃ scan, openScan E s.file s.resume pieces = .ok scan ∧ scan.scanEnd = s.file.length ∧
      Standing E s.delivered committed [] scan := by
  obtain ⟨htext, htorn, hrows, hresume⟩ := h
  obtain ⟨hnone, rfl⟩ | hsome := hresume
  · exact ⟨_, by rw [hnone]; rfl, rfl, .start hrows shows_fresh _⟩
  · have hfile : s.file = committed ++ (tail ++ s.file.drop s.scannedTo) := by
      rw [← append_assoc, ← htext, take_append_drop]
    rw [hsome, map_some, getD_some, boundaryOf_take hfile] at hpieces
    have hshows := shows_fresh.appendAll pieces
    rw [nil_append, hpieces] at hshows
    replace hshows := hshows.of_rtake
    refine ⟨_, ?_, rfl, .start hrows hshows _⟩
    have hlength : ¬ s.file.length < committed.length := by
      rw [hfile, length_append]
      omega
    have hends : ¬ (0 < committed.length ∧ s.file[committed.length - 1]? ≠ some lineFeed) := by
      rintro ⟨hpos, hne⟩
      have hlast : s.file[committed.length - 1]? = committed.getLast? := by
        rw [hfile, getElem?_append_left (by omega), getLast?_eq_getElem?]
      obtain ⟨byte, hbyte⟩ : ∃ byte, committed.getLast? = some byte :=
        ⟨_, getLast?_eq_some_getLast (ne_nil_of_length_pos hpos)⟩
      rw [hlast, hbyte, hrows.ends byte hbyte] at hne
      exact hne rfl
    rw [hsome, openScan]
    simp only
    rw [if_neg hlength, if_neg hends, if_neg (not_not.mpr hshows.digestOf)]

theorem sound_step {s s' : UsageLedger Row Digest} {e : LedgerEvent} (h : Sound E s)
    (hs : ledgerStep E s e = some s') : Sound E s' := by
  obtain ⟨committed, tail, hresumes⟩ := h.resumes
  cases e with
  | grow bytes =>
    obtain rfl := some_inj.mp hs
    refine ⟨by simpa using Nat.le_add_right_of_le h.scanned, ⟨committed, tail, ?_, hresumes.2⟩,
      fun scan hscan ↦ ?_⟩
    · rw [take_append_of_le_length h.scanned]
      exact hresumes.1
    · obtain ⟨hposition, hend, committed', tail', htext, hstanding⟩ := h.running scan hscan
      refine ⟨hposition, by simpa using Nat.le_add_right_of_le hend, committed', tail', ?_, hstanding⟩
      rw [take_append_of_le_length (hposition.trans hend)]
      exact htext
  | «open» pieces =>
    rw [ledgerStep] at hs
    split_ifs at hs with hguard
    obtain ⟨-, hpieces⟩ := not_or.mp hguard
    obtain ⟨scan, hscan, hend, hstanding⟩ := openScan_ok hresumes (not_not.mp hpieces)
    rw [hscan] at hs
    obtain rfl := some_inj.mp hs
    have hprefix : committed <+: s.file :=
      (prefix_append committed tail).trans (hresumes.1 ▸ take_prefix _ _)
    have hposition : scan.position = committed.length := by simpa using hstanding.position
    refine ⟨h.scanned, h.resumes, fun scan' hscan' ↦ ?_⟩
    obtain rfl := some_inj.mp hscan'
    refine ⟨by rw [hposition, hend]; exact hprefix.length_le, hend.le, committed, [], ?_, hstanding⟩
    rw [hposition, append_nil]
    exact (prefix_iff_eq_take.mp hprefix).symm
  | read bytes =>
    obtain ⟨scan, hscan, hs⟩ := bind_eq_some_iff.mp hs
    split_ifs at hs with hbytes
    obtain rfl := some_inj.mp hs
    obtain ⟨hposition, hend, committed', tail', htext, hstanding⟩ := h.running scan hscan
    have hfits := (le_min_iff.mp hbytes.2).2
    obtain ⟨committed'', tail'', htext', hstanding'⟩ :=
      hstanding.readChunk not_mem_nil (s.file.slice scan.position bytes)
    rw [append_nil, ← htext, slice, ← take_add] at htext'
    have hposition' := hstanding'.position
    rw [← htext', length_take, Nat.min_eq_left (by omega)] at hposition'
    refine ⟨h.scanned, h.resumes, fun scan' hscan' ↦ ?_⟩
    obtain rfl := some_inj.mp hscan'
    rw [readChunk_scanEnd, hposition']
    exact ⟨by omega, hend, committed'', tail'', htext', hstanding'⟩
  | finish =>
    obtain ⟨scan, hscan, hs⟩ := bind_eq_some_iff.mp hs
    split_ifs at hs with hall
    obtain rfl := some_inj.mp hs
    obtain ⟨-, hend, committed', tail', htext, hstanding⟩ := h.running scan hscan
    refine ⟨hend, ⟨committed', tail', by rw [← hall]; exact htext, hstanding.torn, hstanding.rows,
      .inr ?_⟩, by rintro _ ⟨⟩⟩
    rw [hstanding.processed, hstanding.committedTail.digestOf]

theorem sound_inductive : (usageLedger E).Inductive Machine.Always (Sound E) where
  init s hs := by
    obtain rfl : s = {} := hs
    exact ⟨Nat.zero_le _, ⟨[], [], rfl, not_mem_nil, .nil, .inl ⟨rfl, rfl⟩⟩,
      nofun⟩
  step _ _ _ h _ hs := sound_step h hs

/-- Between two scans: all scans so far have delivered what one scan does, the rows of the complete
lines; the digest is that of the bytes before the place to go on at; the next scan goes on there, and
one of a file with other bytes there does not. -/
structure ScansAgree (E : LedgerEnv Row Digest) (s : UsageLedger Row Digest) : Prop where
  once : ∀ chunks, chunks.flatten = s.file.take s.scannedTo → s.delivered = (scanOnce E chunks).entries
  complete : s.delivered = rowsOf E (s.file.take s.scannedTo)
  digest : ∀ processed digest, s.resume = some (processed, digest) →
    digest = E.digest ((s.file.take processed).rtake boundaryDigestBytes)
  accepted : ∀ pieces, pieces.flatten = boundaryOf s.file ((s.resume.map Prod.fst).getD 0) →
    ∃ scan, openScan E s.file s.resume pieces = .ok scan
  rewritten : ∀ processed digest, s.resume = some (processed, digest) → ∀ file pieces,
    pieces.flatten = boundaryOf file processed →
      boundaryOf file processed ≠ boundaryOf s.file processed →
        ∃ reason, openScan E file s.resume pieces = .error reason

theorem openScan_rewritten (hdigest : Function.Injective E.digest) {text : List UInt8} {n : ℕ}
    (hpieces : pieces.flatten = boundaryOf file n) (hne : boundaryOf file n ≠ text) :
    ∃ reason, openScan E file (some (n, E.digest text)) pieces = .error reason := by
  rw [openScan]
  simp only
  split_ifs with hshort hends hsame
  · exact ⟨_, rfl⟩
  · exact ⟨_, rfl⟩
  · exact ⟨_, rfl⟩
  · have hshows := shows_fresh.appendAll pieces
    rw [nil_append, hpieces] at hshows
    have hlength : (boundaryOf file n).length ≤ boundaryDigestBytes := by
      rw [boundaryOf, length_drop, length_take]
      omega
    have htext := hdigest (hshows.digestOf.symm.trans (not_not.mp hsame))
    rw [rtake_of_length_le hlength] at htext
    exact absurd htext hne

/-- **The scans of a growing ledger deliver what one scan delivers.** -/
theorem incremental_scans_deliver (hdigest : Function.Injective E.digest) {s : UsageLedger Row Digest}
    (h : (usageLedger E).Reachable s) : ScansAgree E s := by
  obtain ⟨committed, tail, hresumes⟩ := (sound_inductive.reachable h).resumes
  obtain ⟨htext, htorn, hrows, hresume⟩ := hresumes
  have hcomplete : s.delivered = rowsOf E (s.file.take s.scannedTo) := by
    rw [htext, hrows.torn htorn]
  have hfile : s.file = committed ++ (tail ++ s.file.drop s.scannedTo) := by
    rw [← append_assoc, ← htext, take_append_drop]
  have hplace {processed : ℕ} {digest : Digest} (hsome : s.resume = some (processed, digest)) :
      processed = committed.length ∧ digest = E.digest (committed.rtake boundaryDigestBytes) := by
    obtain ⟨hnone, -⟩ | hresume := hresume
    · rw [hnone] at hsome
      nomatch hsome
    · simpa [eq_comm] using hsome.symm.trans hresume
  refine ⟨fun chunks hchunks ↦ ?_, hcomplete, fun processed digest hsome ↦ ?_, fun pieces hpieces ↦ ?_,
    fun processed digest hsome file pieces hpieces hne ↦ ?_⟩
  · rw [scanOnce_entries, hchunks, hcomplete]
  · obtain ⟨rfl, rfl⟩ := hplace hsome
    rw [hfile, take_left]
  · obtain ⟨scan, hscan, -⟩ := openScan_ok ⟨htext, htorn, hrows, hresume⟩ hpieces
    exact ⟨scan, hscan⟩
  · obtain ⟨rfl, rfl⟩ := hplace hsome
    rw [hsome]
    exact openScan_rewritten hdigest hpieces (by rwa [← boundaryOf_take hfile])

/-- Lines are their own rows, and bytes their own digest. -/
def plainLedgerEnv : LedgerEnv (List UInt8) (List UInt8) := ⟨some, id, 4⟩

/-- Two lines; the first scan finds the second one torn. -/
theorem two_scans_deliver : ScansAgree plainLedgerEnv ((usageLedger plainLedgerEnv).play {}
    [.grow [0x31, 0x0a, 0x32], .open [], .read 1, .read 2, .finish, .grow [0x33, 0x0a],
      .open [[0x31], [0x0a]], .read 3, .finish]) :=
  incremental_scans_deliver Function.injective_id ⟨{}, rfl, Machine.run_play (by decide +kernel)⟩

end Usage
