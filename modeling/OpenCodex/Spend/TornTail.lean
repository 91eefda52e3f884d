import OpenCodex.Spend.Restart

/-!
# A torn tail

A crash may leave the last record of the file incomplete.  The next replay drops it, and then the
ledger goes on: but it goes on in the same file, which does not end in a newline, so the first line
it appends is run together with what was left and is not JSON (`parse_joined`).  If another line
follows, the next replay finds a corrupt record in the middle of the file; if none does, it drops
the line as it dropped the tail, whatever it said.

No harm is done while nothing is appended to the file, recovery's own records included, and none once
a compaction has replaced it (`torn_tail_harmless`).
-/

set_option autoImplicit false

open List

namespace Spend

open SpendLedger

/-! ## The file a crash leaves -/

/-- The text of some lines, each with its newline. -/
def textOf (lines : List JsString) : JsString := (lines.map (· ++ [newline])).flatten

/-- A nonempty strict prefix of one more record, newline included. -/
structure TornTail (tail : JsString) : Prop where
  nonempty : tail ≠ []
  cut : ∃ record : JournalRecord, record.WellFormed ∧
    ∃ rest, rest ≠ [] ∧ record.line ++ [newline] = tail ++ rest

/-- What is read as one line. -/
def IsLine (line : JsString) : Prop := line ≠ [] ∧ newline ∉ line

theorem JournalRecord.isLine (record : JournalRecord) : IsLine record.line :=
  ⟨record.line_ne_nil, record.newline_notMem_line⟩

theorem textOf_complete (lines : List JsString) : Complete (textOf lines) := by
  rcases eq_nil_or_concat lines with rfl | ⟨before, line, rfl⟩
  · exact .inl rfl
  · exact .inr ⟨textOf before ++ line, by simp [textOf]⟩

theorem textOf_append (lines lines' : List JsString) :
    textOf (lines ++ lines') = textOf lines ++ textOf lines' := by
  simp [textOf]

variable {lines : List JsString}

theorem linesOf_textOf (h : ∀ line ∈ lines, IsLine line) : linesOf (textOf lines) = lines := by
  induction lines with
  | nil => exact linesOf_nil
  | cons line lines ih =>
    rw [forall_mem_cons] at h
    have heq : textOf (line :: lines) = line ++ newline :: textOf lines := by simp [textOf]
    rw [heq, linesOf_newline, linesOf_line h.1.1 h.1.2, ih h.2]
    rfl

theorem forall_isLine (records : List JournalRecord) :
    ∀ line ∈ records.map JournalRecord.line, IsLine line := by
  intro line hline
  obtain ⟨record, -, rfl⟩ := List.mem_map.mp hline
  exact record.isLine

variable {tail : JsString}

theorem TornTail.exists_line (h : TornTail tail) :
    ∃ record : JournalRecord, record.WellFormed ∧ ∃ rest, record.line = tail ++ rest := by
  obtain ⟨record, hw, rest, hne, heq⟩ := h.cut
  obtain ⟨before, last, rfl⟩ := (eq_nil_or_concat rest).resolve_left hne
  rw [concat_eq_append, ← append_assoc] at heq
  exact ⟨record, hw, before, append_inj_left' heq rfl⟩

theorem TornTail.isLine (h : TornTail tail) : IsLine tail := by
  obtain ⟨record, -, rest, heq⟩ := h.exists_line
  refine ⟨h.nonempty, fun hmem ↦ record.newline_notMem_line ?_⟩
  rw [heq]
  exact mem_append_left _ hmem

/-! ## What becomes of the tail -/

theorem TornTail.parse (h : TornTail tail) :
    Json.parse tail = none ∨ ∃ record : JournalRecord, record.WellFormed ∧ tail = record.line := by
  obtain ⟨record, hw, rest, heq⟩ := h.exists_line
  cases rest with
  | nil => exact .inr ⟨record, hw, by rw [heq, append_nil]⟩
  | cons c rest => exact .inl (Json.parse_cut heq h.nonempty (cons_ne_nil c rest))

/-- **A line appended to a torn tail** is no JSON. -/
theorem TornTail.parse_joined (h : TornTail tail) (record : JournalRecord) :
    Json.parse (tail ++ record.line) = none := by
  obtain ⟨torn, -, rest, heq⟩ := h.exists_line
  exact Json.parse_run_together heq h.nonempty ⟨by decide, by decide⟩

variable {line : JsString}

theorem parseSpendJournalRecord_eq_none (h : Json.parse line = none) :
    parseSpendJournalRecord line = none := by
  rw [parseSpendJournalRecord, h]
  rfl

variable {records : List JournalRecord}

theorem replay_lines_append (h : ∀ record ∈ records, record.WellFormed) (lines : List JsString)
    (b : Books) (n : ℕ) : replay (records.map JournalRecord.line ++ lines) (b, n) =
      replay lines (b.applyAll records, n) := by
  induction records generalizing b with
  | nil => rfl
  | cons record records ih =>
    rw [forall_mem_cons] at h
    rw [map_cons, cons_append, replay, replayLine, parse_line h.1.fits]
    exact ih h.2 (b.apply record)

/-- **The first replay drops the tail**, or reads it, and finds nothing wrong. -/
theorem replay_torn (h : ∀ record ∈ records, record.WellFormed) (htail : TornTail tail) :
    ∃ extra, (∀ record ∈ extra, record.WellFormed) ∧
      replay (linesOf (textOf (records.map JournalRecord.line) ++ tail)) (.empty, 0) =
        (Books.empty.applyAll (records ++ extra), 0) := by
  have hlines : linesOf (textOf (records.map JournalRecord.line) ++ tail) =
      records.map JournalRecord.line ++ [tail] := by
    rw [(textOf_complete _).linesOf_append, linesOf_textOf (forall_isLine records),
      linesOf_line htail.isLine.1 htail.isLine.2]
  rw [hlines, replay_lines_append h]
  rcases htail.parse with hnone | ⟨record, hw, rfl⟩
  · refine ⟨[], nofun, ?_⟩
    rw [replay, replayLine, parseSpendJournalRecord_eq_none hnone, hnone, append_nil]
    rfl
  · refine ⟨[record], forall_mem_singleton.mpr hw, ?_⟩
    rw [replay, replayLine, parse_line hw.fits, Books.applyAll_append]
    rfl

theorem replay_mono (lines : List JsString) (state : Books × ℕ) :
    state.2 ≤ (replay lines state).2 := by
  induction lines generalizing state with
  | nil => exact le_rfl
  | cons line lines ih =>
    refine le_trans ?_ (ih _)
    rw [replayLine]
    split
    · exact le_rfl
    split
    · exact Nat.le_succ _
    · exact le_rfl

/-- **A line that is no JSON, before another one**, is a corrupt record. -/
theorem replay_corrupt (h : Json.parse line = none) (before after : List JsString)
    (hafter : after ≠ []) (state : Books × ℕ) : 0 < (replay (before ++ line :: after) state).2 := by
  induction before generalizing state with
  | nil =>
    rw [nil_append, replay, replayLine, parseSpendJournalRecord_eq_none h, h]
    have hlast : after.isEmpty = false := by simpa using hafter
    simp only [hlast, Option.isSome_none, Bool.not_false, Bool.or_true, if_true]
    exact lt_of_lt_of_le (Nat.succ_pos state.2) (replay_mono after (state.1, state.2 + 1))
  | cons first before ih => exact ih _

/-! ## Going on in that file -/

/-- Whether a base is left, before the lines added: no line is empty, so it can be told apart. -/
def seen (file : JournalFile) : List JsString :=
  (if file.base = [] then [] else [[]]) ++ linesOf file.added

/-- The file was opened with these contents, or replaced since; what was added are whole lines. -/
def tornTrust (base : JsString) : Trust JournalFile :=
  ⟨fun file ↦ (file.base = [] ∨ file.base = base) ∧ file.added = textOf (linesOf file.added),
    fun _ ↦ True, seen⟩

theorem empty_notMem_linesOf (text : JsString) : [] ∉ linesOf text := by
  intro h
  simpa using (mem_filter.mp h).2

variable {file : JournalFile}

theorem seen_inj {file' : JournalFile} (hlines : [] ∉ lines) (h : seen file' = seen file ++ lines) :
    (file'.base = [] ↔ file.base = []) ∧ linesOf file'.added = linesOf file.added ++ lines := by
  have hfile := empty_notMem_linesOf file.added
  have hfile' := empty_notMem_linesOf file'.added
  have hmore : [] ∉ linesOf file.added ++ lines := by
    rw [mem_append, not_or]
    exact ⟨hfile, hlines⟩
  rw [seen, seen] at h
  by_cases hbase' : file'.base = []
  · by_cases hbase : file.base = []
    · rw [if_pos hbase', if_pos hbase, nil_append, nil_append] at h
      exact ⟨iff_of_true hbase' hbase, h⟩
    · rw [if_pos hbase', if_neg hbase, nil_append] at h
      exact absurd (h ▸ mem_cons_self) hfile'
  · by_cases hbase : file.base = []
    · rw [if_neg hbase', if_pos hbase, nil_append] at h
      exact absurd (h ▸ mem_cons_self) hmore
    · rw [if_neg hbase', if_neg hbase, append_assoc] at h
      exact ⟨iff_of_false hbase' hbase, append_cancel_left h⟩

theorem linesOf_added_append (h : file.added = textOf (linesOf file.added)) (record : JournalRecord) :
    linesOf (file.added ++ (record.line ++ [newline])) = linesOf file.added ++ [record.line] := by
  refine linesOf_append_complete ?_ record.line_ne_nil record.newline_notMem_line
  rw [h]
  exact textOf_complete _

/-- **The file is reliable in this sense**, whatever it was opened with. -/
theorem fileJournal_tornTrust (base : JsString) : Reliable fileJournal (tornTrust base) where
  append file record hfile := by
    have hlines := linesOf_added_append hfile.2 record
    refine ⟨_, rfl, ⟨hfile.1, ?_⟩, ?_⟩
    · show file.added ++ (record.line ++ [newline]) = textOf (linesOf _)
      rw [hlines, textOf_append, ← hfile.2]
      simp [textOf]
    · show seen _ = seen file ++ [record.line]
      rw [seen, seen, hlines, append_assoc]
  rewrite rewrite hrewrite file record _ := by
    rw [← Option.some_inj.mp hrewrite]
    have hline : ∀ line ∈ [record.line], IsLine line := forall_mem_singleton.mpr record.isLine
    have hlines : linesOf (textOf [record.line]) = [record.line] := linesOf_textOf hline
    refine ⟨_, rfl, ⟨.inl rfl, ?_⟩, ?_⟩
    · show textOf [record.line] = textOf (linesOf (textOf [record.line]))
      rw [hlines]
    · show seen ⟨[], textOf [record.line]⟩ = _
      rw [seen, if_pos rfl, hlines, nil_append]
  appendHonest _ _ _ _ := trivial
  rewriteHonest _ _ _ _ _ _ := trivial

namespace SpendLedger

variable {hash : AliasHash} {base : JsString} {b₀ : Books} {l l' : SpendLedger JournalFile}

/-- **Where the ledger stands** while it goes on in a file: the books have moved from those it was
opened with by the records added, or from nothing once the file was replaced. -/
structure GoesOn (base : JsString) (b₀ : Books) (l : SpendLedger JournalFile) : Prop where
  sums : l.books.Sums
  tracked : l.books.Tracked
  seeds : GoodSeeds l
  quiet : Quiet (tornTrust base) l
  file : ∃ since : List JournalRecord, (∀ record ∈ since, record.WellFormed) ∧
    linesOf l.journal.added = since.map JournalRecord.line ∧
    l.books = (if l.journal.base = [] then Books.empty else b₀).applyAll since

theorem Moves.goesOn (h : Moves (tornTrust base) l l' records) (hg : GoesOn base b₀ l) :
    GoesOn base b₀ l' := by
  obtain ⟨since, hw, hadded, hbooks⟩ := hg.file
  obtain ⟨hq, hseen⟩ := h.quiet hg.quiet
  have hlines : [] ∉ records.map JournalRecord.line := by
    intro hmem
    obtain ⟨record, -, hempty⟩ := List.mem_map.mp hmem
    exact record.line_ne_nil hempty
  obtain ⟨hbase, hadded'⟩ := seen_inj hlines hseen
  refine ⟨h.books ▸ hg.sums.applyAll h.legal.wellFormed,
    h.books ▸ hg.tracked.applyAll hg.sums h.legal, h.seeds hg.seeds, hq, since ++ records,
    forall_mem_append.mpr ⟨hw, h.legal.wellFormed⟩, ?_, ?_⟩
  · rw [hadded', hadded, map_append]
  · rw [h.books, hbooks, Books.applyAll_append]
    simp only [hbase]

theorem Compacted.goesOn (h : Compacted (tornTrust base) l l') (hg : GoesOn base b₀ l) :
    GoesOn base b₀ l' := by
  obtain ⟨hq, hseen⟩ := h.quiet hg.quiet
  refine ⟨h.books ▸ hg.sums, h.books ▸ hg.tracked, h.seeds hg.seeds, hq, ?_⟩
  rcases hseen with hseen | ⟨time, hseen⟩
  · obtain ⟨since, hw, hadded, hbooks⟩ := hg.file
    obtain ⟨hbase, hadded'⟩ := seen_inj not_mem_nil (hseen.trans (append_nil _).symm)
    rw [append_nil] at hadded'
    refine ⟨since, hw, hadded'.trans hadded, ?_⟩
    rw [h.books, hbooks]
    simp only [hbase]
  · -- the file is a checkpoint of the books, and nothing is left of what was there
    have hline : [] ∉ [(l.books.checkpointRecord time).line] := by
      rw [mem_singleton]
      exact (JournalRecord.line_ne_nil _).symm
    have hnothing : seen ⟨[], []⟩ = [] := by simp [seen, linesOf_nil]
    obtain ⟨hbase, hadded⟩ := seen_inj hline (show seen l'.journal = seen ⟨[], []⟩ ++ _ by
      exact hseen)
    refine ⟨[l.books.checkpointRecord time],
      forall_mem_singleton.mpr (hg.sums.checkpointRecord time), ?_, ?_⟩
    · rw [hadded, linesOf_nil]
      rfl
    · rw [h.books, if_pos (hbase.mpr rfl), Books.applyAll_cons, Books.applyAll_nil]
      exact (Books.apply_checkpointRecord hg.sums hg.tracked time .empty).symm

theorem Performs.goesOn (h : Performs (tornTrust base) l l') (hg : GoesOn base b₀ l) :
    GoesOn base b₀ l' := by
  obtain ⟨records, mid, hm, -, hcomp⟩ := h
  exact hcomp.goesOn (hm.goesOn hg)

theorem calls_goesOn (events : List (LedgerEvent JournalFile)) (hg : GoesOn base b₀ l) :
    GoesOn base b₀ (events.foldl (call fileJournal hash) l) := by
  induction events generalizing l with
  | nil => exact hg
  | cons event events ih =>
    exact ih ((call_performs (fileJournal_tornTrust base) hg.seeds event).goesOn hg)

theorem read_opened (text : JsString) : fileJournal.read (.opened text) = linesOf text := by
  simp [fileJournal, JournalFile.contents, JournalFile.opened]

/-- **Opening a torn file** and going on in it. -/
theorem create_goesOn (hash : AliasHash) (policy : SpendReservationPolicy) (now : ℕ)
    (hbase : base ≠ []) (hw : ∀ record ∈ records, record.WellFormed) {n : ℕ}
    (hreplay : replay (linesOf base) (.empty, 0) = (Books.empty.applyAll records, n)) :
    GoesOn base (Books.empty.applyAll records)
      (create fileJournal hash policy (.opened base) now) := by
  have hread := read_opened base
  have hbooks : (replayed fileJournal hash policy (.opened base)).books =
      Books.empty.applyAll records := by
    rw [replayed, hread, hreplay]
  have hsums : (Books.empty.applyAll records).Sums := Books.empty_sums.applyAll hw
  obtain ⟨recovery, hm, -⟩ := create_moves (fileJournal_tornTrust base) hash policy (.opened base) now
  obtain ⟨hq, hseen⟩ := hm.quiet ⟨⟨rfl, rfl, rfl⟩, ⟨.inr rfl, by
    show [] = textOf (linesOf [])
    rw [linesOf_nil]
    rfl⟩⟩
  have hlines : [] ∉ recovery.map JournalRecord.line := by
    intro hmem
    obtain ⟨record, -, hempty⟩ := List.mem_map.mp hmem
    exact record.line_ne_nil hempty
  obtain ⟨hsame, hadded⟩ := seen_inj hlines hseen
  refine ⟨?_, tracked_of_not_live (create_not_live hash policy _ now),
    hm.seeds fun seed owned howned ↦ absurd howned (by simp [replayed]), hq, recovery,
    hm.legal.wellFormed, ?_, ?_⟩
  · rw [hm.books, hbooks]
    exact hsums.applyAll hm.legal.wellFormed
  · rw [hadded]
    show linesOf [] ++ _ = _
    rw [linesOf_nil, nil_append]
  · rw [hm.books, hbooks, if_neg (mt hsame.mp hbase)]

/-! ## The next restart -/

/-- **What a restart should find**: nothing corrupt, and the totals of the ledger before it, with its
open reservations unresolved. -/
structure Reproduces (l l' : SpendLedger JournalFile) : Prop where
  corruptRecords : l'.corruptRecords = 0
  keys : l'.books.scopes.keys = l.books.scopes.keys
  settled : ∀ ref, (l'.books.figures ref).settled = (l.books.figures ref).settled
  reserved : ∀ ref, (l'.books.figures ref).reserved = 0
  unresolved : ∀ ref, (l'.books.figures ref).unresolved =
    (l.books.figures ref).unresolved + (l.books.figures ref).reserved

theorem create_corruptRecords (hash : AliasHash) (policy : SpendReservationPolicy) (text : JsString)
    (now : ℕ) : (create fileJournal hash policy (.opened text) now).corruptRecords =
      (replay (linesOf text) (.empty, 0)).2 := by
  rw [(create_settings fileJournal hash policy (.opened text) now).corruptRecords, replayed,
    read_opened]

theorem reproduces_of_replay (hs : l.books.Sums) (ht : l.books.Tracked) {text : JsString}
    (hreplay : replay (linesOf text) (.empty, 0) = (l.books, 0)) (policy : SpendReservationPolicy)
    (now : ℕ) : Reproduces l (create fileJournal hash policy (.opened text) now) := by
  obtain ⟨recovery, hm, hrec⟩ := create_moves (.nothing fileJournal) hash policy (.opened text) now
  have hbooks : (create fileJournal hash policy (.opened text) now).books =
      l.books.applyAll recovery := by
    rw [hm.books, replayed, read_opened, hreplay]
  have hsame := hs.recovery_sameTotals ht hrec
  rw [← hbooks] at hsame
  have hsums : (create fileJournal hash policy (.opened text) now).books.Sums := by
    rw [hbooks]
    exact hs.applyAll hm.legal.wellFormed
  have hzero := hsums.reserved_eq_zero (create_not_live hash policy _ now)
  refine ⟨?_, hsame.keys, hsame.settled, hzero, fun ref ↦ ?_⟩
  · rw [create_corruptRecords, hreplay]
  · rw [← hsame.unsettled, hzero, Nat.add_zero]

theorem replay_joined {since : List JournalRecord} (hw : ∀ record ∈ records, record.WellFormed)
    (htail : TornTail tail) (hmore : 2 ≤ since.length) :
    0 < (replay (linesOf (textOf (records.map JournalRecord.line) ++ tail ++
      textOf (since.map JournalRecord.line))) (.empty, 0)).2 := by
  obtain ⟨first, second, rest, rfl⟩ : ∃ first second rest, since = first :: second :: rest := by
    rcases since with _ | ⟨first, _ | ⟨second, rest⟩⟩
    · nomatch hmore
    · nomatch hmore
    · exact ⟨first, second, rest, rfl⟩
  have hjoined : IsLine (tail ++ first.line) := by
    refine ⟨by simp [htail.nonempty], ?_⟩
    rw [mem_append, not_or]
    exact ⟨htail.isLine.2, first.newline_notMem_line⟩
  have htext : textOf (records.map JournalRecord.line) ++ tail ++
      textOf ((first :: second :: rest).map JournalRecord.line) =
        textOf (records.map JournalRecord.line ++
          (tail ++ first.line) :: (second :: rest).map JournalRecord.line) := by
    simp [textOf]
  rw [htext, linesOf_textOf]
  · exact replay_corrupt (htail.parse_joined first) _ _ (by simp) _
  · refine forall_mem_append.mpr ⟨forall_isLine records, ?_⟩
    exact forall_mem_cons.mpr ⟨hjoined, forall_isLine (second :: rest)⟩

end SpendLedger

/-- **When a torn tail does no harm.**  Take any file that ends in a torn tail, and any run of calls
of the ledger recovered from it.  If the file was replaced by a compaction since it was opened, or
nothing was appended to it, by recovery or by a call, then the next restart reproduces the ledger.
If two or more records were appended, it never does: it finds a corrupt record. -/
theorem torn_tail_harmless (hash : AliasHash) {records : List JournalRecord}
    (hw : ∀ record ∈ records, record.WellFormed) {tail : JsString} (htail : TornTail tail)
    (policy policy' : SpendReservationPolicy) (start now : ℕ)
    (events : List (LedgerEvent JournalFile)) :
    let l := events.foldl (call fileJournal hash) (create fileJournal hash policy
      (.opened (textOf (records.map JournalRecord.line) ++ tail)) start)
    let l' := create fileJournal hash policy' (.opened l.journal.contents) now
    (l.journal.base = [] ∨ l.journal.added = [] → Reproduces l l') ∧
      (l.journal.base ≠ [] → 2 ≤ (linesOf l.journal.added).length → ¬Reproduces l l') := by
  intro l l'
  obtain ⟨extra, hextra, hreplay⟩ := replay_torn hw htail
  have hne : textOf (records.map JournalRecord.line) ++ tail ≠ [] := by simp [htail.nonempty]
  have hg : GoesOn _ _ l := calls_goesOn events (create_goesOn hash policy start hne
    (forall_mem_append.mpr ⟨hw, hextra⟩) hreplay)
  obtain ⟨since, hsince, hadded, hbooks⟩ := hg.file
  obtain ⟨hbase, htext⟩ := hg.quiet.sound
  refine ⟨fun hcond ↦ reproduces_of_replay hg.sums hg.tracked ?_ policy' now, fun hbase' hmore h ↦ ?_⟩
  · by_cases hempty : l.journal.base = []
    · -- the file was replaced: it says what the books say
      have hcontents : l.journal.contents = l.journal.added := by
        rw [JournalFile.contents, hempty, nil_append]
      rw [if_pos hempty] at hbooks
      rw [hcontents, hadded, replay_lines hsince, hbooks]
    · -- nothing was appended: the file is still the one that was opened
      have hnothing := hcond.resolve_left hempty
      rw [hnothing, linesOf_nil] at hadded
      rw [if_neg hempty, map_eq_nil_iff.mp hadded.symm, Books.applyAll_nil] at hbooks
      rw [JournalFile.contents, hnothing, append_nil, hbase.resolve_left hempty, hreplay, hbooks]
  · have hzero := h.corruptRecords
    rw [create_corruptRecords, JournalFile.contents, hbase.resolve_left hbase', htext, hadded] at hzero
    rw [hadded, length_map] at hmore
    exact absurd hzero (replay_joined hw htail hmore).ne'

theorem tornTail_brace : TornTail [0x7b] := by
  refine ⟨by decide, .forget (plainHash .send []) 0, trivial, ?_⟩
  obtain ⟨text, htext⟩ := Json.render_obj
    ((js "v", .nat 1) :: (JournalRecord.forget (plainHash .send []) 0).members)
  refine ⟨text ++ [0x7d] ++ [newline], by simp, ?_⟩
  rw [JournalRecord.line, JournalRecord.doc, htext]
  simp

/-- A send that was settled before the crash. -/
def settledSend : List JournalRecord :=
  [.reserve (plainHash .send (js "first")) [rootRef "root"] 50 1,
    .settle (plainHash .send (js "first")) 30 2]

theorem torn_tail_harmless_settled :
    let l := create fileJournal plainHash defaultSpendReservationPolicy
      (.opened (textOf (settledSend.map JournalRecord.line) ++ [0x7b])) 3
    Reproduces l (create fileJournal plainHash defaultSpendReservationPolicy
      (.opened l.journal.contents) 4) := by
  intro l
  have hw : ∀ record ∈ settledSend, record.WellFormed := by
    refine forall_mem_cons.mpr ⟨?_, forall_mem_singleton.mpr trivial⟩
    exact ⟨nodup_singleton _, by simp⟩
  have hnothing : l.journal.added = [] := by decide +kernel
  exact (torn_tail_harmless plainHash hw tornTail_brace defaultSpendReservationPolicy
    defaultSpendReservationPolicy 3 4 []).1 (.inr hnothing)

/-- The ledger of a file that holds one torn byte, after two requests. -/
def afterTornByte : SpendLedger JournalFile :=
  [LedgerEvent.reserve (rootRequest "first" "root" 50) 1,
    .reserve (rootRequest "second" "root" 7) 2].foldl (call fileJournal plainHash)
      (create fileJournal plainHash defaultSpendReservationPolicy (.opened [0x7b]) 0)

/-- **One torn byte and two requests**: the first request is lost, and the journal is corrupt. -/
theorem torn_tail_loses_request :
    let l' := create fileJournal plainHash defaultSpendReservationPolicy
      (.opened afterTornByte.journal.contents) 3
    TornTail [0x7b] ∧ ¬Reproduces afterTornByte l' ∧ l'.corruptRecords = 1 ∧
      (afterTornByte.books.figures (rootRef "root")).spend = 57 ∧
      (l'.books.figures (rootRef "root")).spend = 7 := by
  intro l'
  have hcorrupt : l'.corruptRecords = 1 := by decide +kernel
  refine ⟨tornTail_brace, fun h ↦ ?_, hcorrupt, by decide +kernel, by decide +kernel⟩
  exact absurd (hcorrupt.symm.trans h.corruptRecords) (by decide)

end Spend
