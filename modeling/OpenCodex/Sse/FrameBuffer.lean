import OpenCodex.Sse.Chunking

/-!
# The bounded frame buffer keeps every byte

`BoundedSseFrameBuffer` returns the bytes it is fed, cut into frames: nothing is lost, nothing is read
twice, and where the cuts are depends on the bytes alone.  `Framed b read closed` says what a buffer
that has read `read` and reported the blocks `closed` looks like; one feed leads from one such buffer
to the next (`feed_framed`), so a stream fed in any chunks ends with the blocks of the whole stream
(`frameStream_framed`).  A buffer refuses a stream only where a block is longer than its bound, or one
feed completes too many blocks.
-/

set_option autoImplicit false

open List Act Nat

namespace Sse

/-- Every block of a byte string, the open one included, fits in so many bytes. -/
def BlocksFit (maxBytes : ℕ) (bytes : Bytes) : Prop :=
  (∀ block ∈ (blocksOf bytes).1, block.length ≤ maxBytes) ∧ (blocksOf bytes).2.length ≤ maxBytes

/-- The blocks that frames report: a continuation is no new event. -/
def newBlocks (frames : List BoundedSseFrame) : List Bytes :=
  (frames.filter fun frame ↦ !frame.continuation).map (·.block)

/-- The bytes of frames, delimiters included. -/
def frameBytes (frames : List BoundedSseFrame) : Bytes :=
  frames.flatMap fun frame ↦ frame.block ++ frame.delimiter

@[simp] theorem newBlocks_nil : newBlocks [] = [] := rfl

@[simp] theorem newBlocks_append (l l' : List BoundedSseFrame) :
    newBlocks (l ++ l') = newBlocks l ++ newBlocks l' := by
  simp [newBlocks]

@[simp] theorem frameBytes_nil : frameBytes [] = [] := rfl

@[simp] theorem frameBytes_append (l l' : List BoundedSseFrame) :
    frameBytes (l ++ l') = frameBytes l ++ frameBytes l' := by
  simp [frameBytes]

@[simp] theorem newBlocks_frame (block delimiter : Bytes) :
    newBlocks [⟨block, delimiter, false⟩] = [block] := rfl

@[simp] theorem newBlocks_continuation (block delimiter : Bytes) :
    newBlocks [⟨block, delimiter, true⟩] = [] := rfl

@[simp] theorem frameBytes_frame (block delimiter : Bytes) (continuation : Bool) :
    frameBytes [⟨block, delimiter, continuation⟩] = block ++ delimiter := by
  simp [frameBytes]

namespace BoundedSseFrameBuffer

/-! ## The methods where the candidate fits -/

variable {maxFrameBytes requiredBytes : ℕ}

theorem grownCapacity_exits (h : requiredBytes ≤ maxFrameBytes) (capacity : ℕ) :
    Loop.Exits (growCapacity maxFrameBytes requiredBytes)
      (if capacity = 0 then min maxFrameBytes (max requiredBytes 4096) else capacity)
      (grownCapacity maxFrameBytes requiredBytes capacity) := by
  rw [grownCapacity]
  generalize (if capacity = 0 then min maxFrameBytes (max requiredBytes 4096) else capacity) = c
  rw [Loop.run]
  by_cases hlt : c < requiredBytes
  · rw [growCapacity, if_pos hlt]
    exact .turn (if_pos hlt) (.leave (if_neg (by omega)))
  · rw [growCapacity, if_neg hlt]
    exact .leave (if_neg hlt)

theorem ensureCapacity_run {b : BoundedSseFrameBuffer} (h : requiredBytes ≤ b.maxFrameBytes) :
    ∃ cap, ensureCapacity requiredBytes b = (.ok ⟨⟩, { b with capacity := cap }) := by
  rw [ensureCapacity, bind_run, get_run, andThen_ok]
  split
  · exact ⟨b.capacity, rfl⟩
  · rw [if_neg (by omega)]
    exact ⟨_, rfl⟩

theorem retain_run {b : BoundedSseFrameBuffer} (slice : Bytes)
    (h : b.candidate.length + slice.length ≤ b.maxFrameBytes) :
    ∃ cap, retain slice b =
      (.ok ⟨⟩, { b with candidate := b.candidate ++ slice, capacity := cap }) := by
  rw [retain, bind_run, get_run, andThen_ok]
  split
  · rename_i hnil
    rw [length_eq_zero_iff] at hnil
    subst hnil
    exact ⟨b.capacity, by rw [append_nil]; rfl⟩
  · rw [if_neg (by omega), bind_run]
    obtain ⟨cap, hcap⟩ := ensureCapacity_run h
    rw [hcap, andThen_ok]
    exact ⟨cap, rfl⟩

theorem takeCandidate_run (b : BoundedSseFrameBuffer) :
    ∃ cap, takeCandidate b = (.ok b.candidate, { b with candidate := [], capacity := cap }) := by
  rw [takeCandidate, bind_run, get_run, andThen_ok]
  split
  · rename_i hnil
    rw [length_eq_zero_iff] at hnil
    exact ⟨b.capacity, by rw [hnil, pure_run, ← hnil]⟩
  · exact ⟨0, rfl⟩

variable {ε α : Type}

theorem call_run {x : Act BoundedSseFrameBuffer ε α} {s : Feeding} {a : Except ε α}
    {b : BoundedSseFrameBuffer} (h : x s.buffer = (a, b)) :
    Feeding.call x s = (a, { s with buffer := b }) := by
  rw [Feeding.call, h]

theorem retainRange_run (previousTail chunk : Bytes) {s : Feeding} {start stop : ℕ}
    (hstop : stop ≤ (previousTail ++ chunk).length)
    (h : s.buffer.candidate.length + (stop - start) ≤ s.buffer.maxFrameBytes) :
    ∃ cap, retainRange previousTail chunk start stop s = (.ok ⟨⟩, { s with buffer :=
      { s.buffer with
        candidate := s.buffer.candidate ++ subarray (previousTail ++ chunk) start stop
        capacity := cap } }) := by
  rw [retainRange]
  split
  · rename_i hle
    refine ⟨s.buffer.capacity, ?_⟩
    rw [subarray, Nat.sub_eq_zero_of_le hle, take_zero, append_nil]
    rfl
  · rename_i hlt
    rw [not_le] at hlt
    have hlen := length_subarray (previousTail ++ chunk) start hstop
    rw [← subarray_append previousTail chunk hlt] at hlen ⊢
    have hfirst : ∃ cap, when (start < previousTail.length)
        (Feeding.call (retain (subarray previousTail start (min stop previousTail.length)))) s =
        (.ok ⟨⟩, { s with buffer := { s.buffer with
          candidate := s.buffer.candidate ++ if start < previousTail.length then
            subarray previousTail start (min stop previousTail.length) else []
          capacity := cap } }) := by
      rw [when]
      split
      · rename_i hin
        rw [if_pos hin, length_append] at hlen
        obtain ⟨cap, hcap⟩ := retain_run (b := s.buffer)
          (subarray previousTail start (min stop previousTail.length)) (by omega)
        exact ⟨cap, call_run hcap⟩
      · exact ⟨s.buffer.capacity, by rw [append_nil]; rfl⟩
    obtain ⟨cap, hcap⟩ := hfirst
    rw [bind_of_ok hcap, when]
    split
    · rename_i hin
      rw [if_pos hin, length_append] at hlen
      rw [← append_assoc]
      obtain ⟨cap', hcap'⟩ := retain_run (b := { s.buffer with
          candidate := s.buffer.candidate ++ if start < previousTail.length then
            subarray previousTail start (min stop previousTail.length) else []
          capacity := cap })
        (subarray chunk (start - previousTail.length) (stop - previousTail.length))
        (by
          show (s.buffer.candidate ++ _).length + _ ≤ s.buffer.maxFrameBytes
          rw [length_append]
          omega)
      exact ⟨cap', call_run hcap'⟩
    · exact ⟨cap, by rw [append_nil]; rfl⟩

/-! ## One feed -/

/-- The blocks a feed may complete: where the bytes up to it close at most `maxFramesPerFeed` more
blocks than were closed before. -/
def FitsFeed (b : BoundedSseFrameBuffer) (closed : List Bytes) (read : Bytes) : Prop :=
  (blocksOf read).1.length ≤ closed.length + b.maxFramesPerFeed

/-- A buffer in the middle of a feed: `start` is the buffer the feed began with and `closed₀` what was
reported before. -/
structure Scanned (start : BoundedSseFrameBuffer) (chunk read : Bytes) (closed₀ : List Bytes)
    (i r : ℕ) (s : Feeding) : Prop where
  order : r ≤ i
  bound : i ≤ (start.delimiterTail ++ chunk).length
  front : Front (read ++ chunk) (closed₀ ++ newBlocks s.frames)
    (s.buffer.candidate ++ subarray (start.delimiterTail ++ chunk) r i) s.buffer.pendingLineFeed
    ((start.delimiterTail ++ chunk).drop i)
  bytes : frameBytes s.frames ++ s.buffer.candidate ++ (start.delimiterTail ++ chunk).drop r =
    start.candidate ++ start.delimiterTail ++ chunk
  count : s.completedFrames = (newBlocks s.frames).length
  limits : s.buffer.maxFrameBytes = start.maxFrameBytes ∧
    s.buffer.maxFramesPerFeed = start.maxFramesPerFeed
  opened : s.buffer.disposed = false
  noTail : s.buffer.delimiterTail = []

namespace Scanned

variable {start : BoundedSseFrameBuffer} {chunk read : Bytes} {closed₀ : List Bytes} {i r n : ℕ}
  {s : Feeding}

theorem byte (h : Scanned start chunk read closed₀ i r s)
    (hi : i < (start.delimiterTail ++ chunk).length)
    (hfound : found (start.delimiterTail ++ chunk) i = some 0) :
    Scanned start chunk read closed₀ (i + 1) r s :=
  { h with
    order := by have := h.order; omega
    bound := hi
    front := h.front.byte h.order hi hfound }

/-- What was read of the open block fits, where every block of the whole stream does. -/
theorem fits (h : Scanned start chunk read closed₀ i r s) {later : Bytes}
    (hfit : BlocksFit start.maxFrameBytes (read ++ chunk ++ later)) :
    s.buffer.candidate.length + (i - r) ≤ s.buffer.maxFrameBytes := by
  have hlen := h.front.length_acc_le hfit.1 hfit.2
  rw [length_append, length_subarray _ _ h.bound] at hlen
  rw [h.limits.1]
  exact hlen

theorem complete (h : Scanned start chunk read closed₀ i r s) {later : Bytes}
    (hfit : BlocksFit start.maxFrameBytes (read ++ chunk ++ later))
    (hfeed : FitsFeed start closed₀ (read ++ chunk))
    (hi : i < (start.delimiterTail ++ chunk).length)
    (hfound : found (start.delimiterTail ++ chunk) i = some (n + 1)) :
    ∃ s', completeFrame start.delimiterTail chunk r i (n + 1) s = (.ok ⟨⟩, s') ∧
      Scanned start chunk read closed₀ (i + (n + 1)) (i + (n + 1)) s' := by
  have hlen := found_length (by rwa [found_drop hi.le] at hfound)
  rw [length_drop] at hlen
  have hfront := h.front.delimit hi hfound
  have hcount : s.completedFrames < s.buffer.maxFramesPerFeed := by
    have hprefix := (hfront.closed_kept []).length_le
    rw [append_nil, length_append, length_append, length_singleton] at hprefix
    have hmax : (blocksOf (read ++ chunk)).1.length ≤ closed₀.length + start.maxFramesPerFeed := hfeed
    rw [h.count, h.limits.2]
    have heq : (blocksOf (read ++ chunk)).1 = (Cutting.blocks linePair [] (read ++ chunk)).1 := rfl
    rw [← heq] at hprefix
    omega
  obtain ⟨cap, hcap⟩ := retainRange_run start.delimiterTail chunk h.bound (h.fits hfit)
  rw [completeFrame, bind_run, get_run, andThen_ok, if_neg (by omega), bind_of_ok hcap]
  obtain ⟨cap', hcap'⟩ := takeCandidate_run { s.buffer with
    candidate := s.buffer.candidate ++ subarray (start.delimiterTail ++ chunk) r i
    capacity := cap }
  rw [bind_of_ok (call_run hcap'), modify_run, byteAt_fun, delimiterBytesAt_eq hi.le hfound]
  refine ⟨_, rfl, ?_⟩
  refine
    { order := le_refl _
      bound := by omega
      front := ?_
      bytes := ?_
      count := ?_
      limits := h.limits
      opened := h.opened
      noTail := h.noTail }
  · rw [waits, length_append] at hfront
    simpa [subarray_self] using hfront
  · have hbytes := h.bytes
    rw [← subarray_drop _ h.order,
      ← subarray_drop (start.delimiterTail ++ chunk) (le_add_right i (n + 1))] at hbytes
    rw [← hbytes]
    simp
  · rw [h.count]
    simp

end Scanned

/-- A buffer between two feeds that has read some bytes and reported some blocks. -/
structure Framed (b : BoundedSseFrameBuffer) (read : Bytes) (closed : List Bytes) : Prop where
  opened : b.disposed = false
  front : Front read closed b.candidate b.pendingLineFeed b.delimiterTail
  undecided : Undecided b.delimiterTail

theorem new_framed {b : BoundedSseFrameBuffer} (h : new maxFrameBytes = some b) :
    Framed b [] [] ∧ b.maxFrameBytes = maxFrameBytes ∧ b.candidate = [] ∧ b.delimiterTail = [] := by
  rw [new] at h
  split at h
  · nomatch h
  · obtain rfl := Option.some.inj h
    exact ⟨⟨rfl, .start _ _, .inl rfl⟩, rfl, rfl, rfl⟩

variable {b : BoundedSseFrameBuffer} {read chunk later : Bytes} {closed : List Bytes}

theorem takeLineFeed_scanned (h : Framed b read closed) (hchunk : chunk ≠ []) :
    ∃ i s, takeLineFeed b.delimiterTail chunk ⟨{ b with delimiterTail := [] }, [], 0⟩ = (.ok i, s) ∧
      Scanned b chunk read closed i i
        { s with buffer := { s.buffer with pendingLineFeed := false } } := by
  have hread := h.front.read (append_ne_nil_of_right_ne_nil _ hchunk)
  rw [skip_lateLineFeed] at hread
  rw [takeLineFeed, bind_run, get_run, andThen_ok, byteAt_eq]
  by_cases hlate : b.pendingLineFeed = true ∧ (b.delimiterTail ++ chunk)[0]? = some 10
  · rw [if_pos hlate] at hread ⊢
    refine ⟨1, _, rfl, ?_⟩
    obtain ⟨hcand, htail⟩ := h.front.between hlate.1
    obtain ⟨-, hhead⟩ := hlate
    rw [htail, nil_append] at hhead hread
    cases chunk with
    | nil => exact absurd rfl hchunk
    | cons byte chunk =>
      rw [getElem?_cons_zero, Option.some_inj] at hhead
      subst hhead
      refine ⟨le_refl _, by rw [htail]; simp, ?_, ?_, rfl, ⟨rfl, rfl⟩, h.opened, rfl⟩
      · simpa [subarray_self, htail] using hread
      · simp [htail, hcand]
  · rw [if_neg hlate] at hread ⊢
    refine ⟨0, _, rfl, le_refl _, zero_le _, ?_, ?_, rfl, ⟨rfl, rfl⟩, h.opened, rfl⟩
    · simpa [subarray_self] using hread
    · simp

theorem Scanned.stop {i r : ℕ} {s : Feeding} (h : Scanned b chunk read closed i r s)
    (hfit : BlocksFit b.maxFrameBytes (read ++ chunk ++ later))
    (hend : i < (b.delimiterTail ++ chunk).length → found (b.delimiterTail ++ chunk) i = none) :
    ∃ s', (do
        retainRange b.delimiterTail chunk r i
        when (i < b.delimiterTail.length + chunk.length) (modify fun s ↦
          { s with buffer := { s.buffer with
            delimiterTail := copyRange i (b.delimiterTail.length + chunk.length)
              (byteAt b.delimiterTail chunk) } }) : Act Feeding FramingError PUnit) s =
        (.ok ⟨⟩, s') ∧
      Framed s'.buffer (read ++ chunk) (closed ++ newBlocks s'.frames) ∧
      frameBytes s'.frames ++ s'.buffer.candidate ++ s'.buffer.delimiterTail =
        b.candidate ++ b.delimiterTail ++ chunk ∧
      s'.buffer.maxFrameBytes = b.maxFrameBytes ∧
      s'.buffer.maxFramesPerFeed = b.maxFramesPerFeed := by
  obtain ⟨cap, hcap⟩ := retainRange_run b.delimiterTail chunk h.bound (h.fits hfit)
  rw [bind_of_ok hcap, ← length_append, byteAt_fun]
  have hbytes := h.bytes
  rw [← subarray_drop _ h.order] at hbytes
  by_cases hlt : i < (b.delimiterTail ++ chunk).length
  · rw [when_pos hlt, copyRange_rest hlt.le]
    refine ⟨_, rfl, ⟨h.opened, h.front, ?_⟩, ?_, h.limits.1, h.limits.2⟩
    · have hnone := hend hlt
      rw [found_drop hlt.le] at hnone
      exact found_none hnone
    · rw [← hbytes]
      simp
  · have hdrop : (b.delimiterTail ++ chunk).drop i = [] := drop_of_length_le (by omega)
    have hfront := h.front
    rw [hdrop] at hfront hbytes
    rw [when_neg hlt]
    refine ⟨_, rfl, ⟨h.opened, ?_, ?_⟩, ?_, h.limits.1, h.limits.2⟩
    · simpa [h.noTail] using hfront
    · exact .inl h.noTail
    · rw [← hbytes]
      simp [h.noTail]

variable (isResponsesTerminalFrame : Bytes → Bool)

/-- **One feed.**  A buffer that has read some bytes takes a chunk, and is then one that has read the
chunk as well; it returns the blocks the chunk closes, and neither loses a byte nor invents one. -/
theorem feed_framed (h : Framed b read closed)
    (hfit : BlocksFit b.maxFrameBytes (read ++ chunk ++ later))
    (hfeed : FitsFeed b closed (read ++ chunk)) :
    ∃ frames b', feed isResponsesTerminalFrame chunk b = (.ok frames, b') ∧
      Framed b' (read ++ chunk) (closed ++ newBlocks frames) ∧
      frameBytes frames ++ b'.candidate ++ b'.delimiterTail =
        b.candidate ++ b.delimiterTail ++ chunk ∧
      b'.maxFrameBytes = b.maxFrameBytes ∧ b'.maxFramesPerFeed = b.maxFramesPerFeed := by
  rw [feed, if_neg (by rw [h.opened]; simp)]
  by_cases hchunk : chunk = []
  · subst hchunk
    exact ⟨[], b, if_pos rfl, by simpa using h, by simp, rfl, rfl⟩
  rw [if_neg (by simpa using hchunk)]
  obtain ⟨i, s, hline, hscan⟩ := takeLineFeed_scanned h hchunk
  have hloop : Ensures (Scanned b chunk read closed i i)
      (scanDelimiters (b.delimiterTail.length + chunk.length) (byteAt b.delimiterTail chunk)
        (completeFrame b.delimiterTail chunk) (b.delimiterTail.length + chunk.length) i i)
      (fun p s ↦ Scanned b chunk read closed p.1 p.2 s ∧
        (p.1 < (b.delimiterTail ++ chunk).length → found (b.delimiterTail ++ chunk) p.1 = none))
      (fun _ _ ↦ False) := by
    rw [← length_append, byteAt_fun]
    refine scanDelimiters_ensures _ (fun i r s hs hi hf ↦ hs.byte hi hf) (fun i r n hi hf s hs ↦ ?_)
      (le_add_right _ _)
    obtain ⟨s', hrun, hs'⟩ := hs.complete hfit hfeed hi hf
    rw [hrun]
    exact hs'
  have hresult := hloop _ hscan
  rw [scanFeed, bind_of_ok hline, bind_run, modify_run, andThen_ok, bind_run]
  cases hrun : scanDelimiters (b.delimiterTail.length + chunk.length)
      (byteAt b.delimiterTail chunk) (completeFrame b.delimiterTail chunk)
      (b.delimiterTail.length + chunk.length) i i
      { s with buffer := { s.buffer with pendingLineFeed := false } } with
  | mk result s₁ =>
    rw [hrun] at hresult
    cases result with
    | error e => exact hresult.elim
    | ok p =>
      obtain ⟨s', hstop, hs', hbytes, hmax, hframes⟩ := hresult.1.stop hfit hresult.2
      rw [andThen_ok]
      simp only [hstop]
      exact ⟨s'.frames, s'.buffer, rfl, hs', hbytes, hmax, hframes⟩

theorem Framed.blocks (h : Framed b read closed) :
    blocksOf read = (closed, b.candidate ++ b.delimiterTail) :=
  h.front.blocks h.undecided

/-- No feed of these chunks completes more than so many blocks, where `read` came before. -/
def FeedsFit (maxFramesPerFeed : ℕ) (read : Bytes) (chunks : List Bytes) : Prop :=
  ∀ before chunk after, chunks = before ++ chunk :: after →
    (blocksOf (read ++ before.flatten ++ chunk)).1.length ≤
      (blocksOf (read ++ before.flatten)).1.length + maxFramesPerFeed

variable {chunks : List Bytes}

theorem FeedsFit.head {n : ℕ} (h : FeedsFit n read (chunk :: chunks)) :
    (blocksOf (read ++ chunk)).1.length ≤ (blocksOf read).1.length + n := by
  simpa using h [] chunk chunks rfl

theorem FeedsFit.tail {n : ℕ} (h : FeedsFit n read (chunk :: chunks)) :
    FeedsFit n (read ++ chunk) chunks := by
  intro before next after heq
  have hfit := h (chunk :: before) next after (by rw [heq]; rfl)
  simpa using hfit

theorem feedsFit_nil (n : ℕ) (read : Bytes) : FeedsFit n read [] := by
  intro before chunk after heq
  simp at heq

theorem feedsFit_cons {n : ℕ}
    (h : (blocksOf (read ++ chunk)).1.length ≤ (blocksOf read).1.length + n)
    (hs : FeedsFit n (read ++ chunk) chunks) : FeedsFit n read (chunk :: chunks) := by
  intro before next after heq
  cases before with
  | nil =>
    obtain ⟨rfl, rfl⟩ := List.cons.inj heq
    simpa using h
  | cons first before =>
    obtain ⟨rfl, hrest⟩ := List.cons.inj heq
    simpa using hs before next after hrest

theorem feedAll_framed (h : Framed b read closed)
    (hfit : BlocksFit b.maxFrameBytes (read ++ chunks.flatten))
    (hfeeds : FeedsFit b.maxFramesPerFeed read chunks) :
    ∃ frames b', feedAll isResponsesTerminalFrame chunks b = (.ok frames, b') ∧
      Framed b' (read ++ chunks.flatten) (closed ++ newBlocks frames) ∧
      frameBytes frames ++ b'.candidate ++ b'.delimiterTail =
        b.candidate ++ b.delimiterTail ++ chunks.flatten ∧
      b'.maxFrameBytes = b.maxFrameBytes := by
  induction chunks generalizing b read closed with
  | nil => exact ⟨[], b, rfl, by simpa using h, by simp, rfl⟩
  | cons chunk chunks ih =>
    rw [flatten_cons, ← append_assoc] at hfit
    have hhead := hfeeds.head
    rw [h.blocks] at hhead
    obtain ⟨frames, b₁, hrun, hb₁, hbytes, hmax, hframes⟩ :=
      feed_framed isResponsesTerminalFrame h hfit hhead
    rw [← hmax] at hfit
    obtain ⟨frames', b', hrun', hb', hbytes', hmax'⟩ := ih hb₁ hfit (hframes ▸ hfeeds.tail)
    refine ⟨frames ++ frames', b', ?_, ?_, ?_, hmax'.trans hmax⟩
    · rw [feedAll, bind_of_ok hrun, bind_of_ok hrun']
      rfl
    · simpa using hb'
    · rw [flatten_cons, ← append_assoc, ← hbytes, frameBytes_append]
      simpa using congrArg (frameBytes frames ++ ·) hbytes'

theorem finish_framed (h : Framed b read closed) (hfit : BlocksFit b.maxFrameBytes read) :
    ∃ b', finish b = (.ok (b.candidate ++ b.delimiterTail), b') := by
  rw [BlocksFit, h.blocks, length_append] at hfit
  obtain ⟨cap, hcap⟩ := retain_run b.delimiterTail hfit.2
  obtain ⟨cap', hcap'⟩ := takeCandidate_run { b with
    candidate := b.candidate ++ b.delimiterTail, capacity := cap, delimiterTail := [] }
  rw [finish, if_neg (by rw [h.opened]; simp), bind_of_ok hcap, bind_run, modify_run,
    andThen_ok, hcap']
  exact ⟨_, rfl⟩

/-- **A framed stream.**  Where every block fits and no chunk closes too many of them, the frames and
the tail are the bytes of the stream, cut as `blocksOf` cuts them. -/
theorem frameStream_framed (hnew : new maxFrameBytes = some b)
    (hfit : BlocksFit maxFrameBytes chunks.flatten) (hfeeds : FeedsFit b.maxFramesPerFeed [] chunks) :
    ∃ frames tail b', frameStream isResponsesTerminalFrame chunks b = (.ok (frames, tail), b') ∧
      frameBytes frames ++ tail = chunks.flatten ∧
      blocksOf chunks.flatten = (newBlocks frames, tail) := by
  obtain ⟨hframed, hmax, hcand, htail⟩ := new_framed hnew
  obtain ⟨frames, b₁, hrun, hb₁, hbytes, hmax₁⟩ := feedAll_framed isResponsesTerminalFrame hframed
    (by rwa [hmax]) hfeeds
  obtain ⟨b', hfinish⟩ := finish_framed hb₁ (by rwa [hmax₁, hmax])
  refine ⟨frames, b₁.candidate ++ b₁.delimiterTail, b', ?_, ?_, ?_⟩
  · rw [frameStream, bind_of_ok hrun, bind_of_ok hfinish]
    rfl
  · rw [← append_assoc, hbytes, hcand, htail]
    rfl
  · simpa using hb₁.blocks

/-! ## The size of the candidate array -/

/-- The candidate fits in its array, and the array in the bound `n` of the buffer. -/
structure Sized (n : ℕ) (b : BoundedSseFrameBuffer) : Prop where
  candidate : b.candidate.length ≤ b.capacity
  capacity : b.capacity ≤ n
  limit : b.maxFrameBytes = n

variable {size : ℕ}

theorem Sized.length_le (h : Sized size b) : b.candidate.length ≤ size :=
  h.candidate.trans h.capacity

theorem Sized.shut (h : Sized size b) : Sized size b.shut := ⟨le_refl _, Nat.zero_le _, h.limit⟩

theorem new_sized (h : new size = some b) : Sized size b := by
  obtain ⟨-, hlimit, hcand, -⟩ := new_framed h
  rw [new] at h
  split at h
  · nomatch h
  · obtain rfl := Option.some.inj h
    exact ⟨le_refl _, zero_le _, hlimit⟩

theorem grownCapacity_le {capacity : ℕ} (h : requiredBytes ≤ maxFrameBytes)
    (hcap : capacity ≤ maxFrameBytes) :
    requiredBytes ≤ grownCapacity maxFrameBytes requiredBytes capacity ∧
      grownCapacity maxFrameBytes requiredBytes capacity ≤ maxFrameBytes := by
  constructor
  · have hleft := (grownCapacity_exits h capacity).left
    rw [growCapacity] at hleft
    by_contra hlt
    rw [if_pos (by omega)] at hleft
    nomatch hleft
  · refine Loop.run_preserves (P := (· ≤ maxFrameBytes)) (fun c c' _ hstep ↦ ?_) ?_ 1
    · rw [growCapacity] at hstep
      split at hstep
      · obtain rfl := Option.some.inj hstep
        exact min_le_left _ _
      · nomatch hstep
    · split
      · exact min_le_left _ _
      · exact hcap

theorem ensureCapacity_sized (requiredBytes : ℕ) (candidate : Bytes) :
    Ensures (fun b ↦ Sized size b ∧ b.candidate = candidate) (ensureCapacity requiredBytes)
      (fun _ b ↦ (Sized size b ∧ b.candidate = candidate) ∧ requiredBytes ≤ b.capacity)
      (fun _ ↦ Sized size) := by
  refine .read fun b hb ↦ ?_
  split
  · rename_i hge
    exact ⟨hb, hge⟩
  split
  · exact hb.1
  · rename_i hlt hle
    obtain ⟨⟨hcand, hcap, hlimit⟩, heq⟩ := hb
    obtain ⟨hreq, hmax⟩ := grownCapacity_le (not_lt.mp hle) (hcap.trans_eq hlimit.symm)
    refine ⟨⟨⟨?_, hmax.trans_eq hlimit, hlimit⟩, heq⟩, hreq⟩
    show b.candidate.length ≤ grownCapacity _ _ _
    omega

theorem retain_sized (slice : Bytes) : Keeps (Sized size) (fun _ ↦ Sized size) (retain slice) := by
  refine .read fun b hb ↦ ?_
  split
  · exact hb
  split
  · exact hb.shut
  · refine (ensureCapacity_sized _ b.candidate).bind (fun _ ↦ .modify fun b' hb' ↦ ?_) b ⟨hb, rfl⟩
    obtain ⟨⟨hsized, hcand⟩, hreq⟩ := hb'
    refine ⟨?_, hsized.capacity, hsized.limit⟩
    rwa [hcand, length_append]

theorem takeCandidate_sized : Keeps (Sized size) (fun _ ↦ Sized size) takeCandidate := by
  refine .read fun b hb ↦ ?_
  split
  · exact hb
  · exact ⟨le_refl _, zero_le _, hb.limit⟩

theorem call_sized {x : Act BoundedSseFrameBuffer ε α}
    (h : Keeps (Sized size) (fun _ ↦ Sized size) x) :
    Keeps (fun s ↦ Sized size s.buffer) (fun _ s ↦ Sized size s.buffer) (Feeding.call x) := by
  intro s hs
  have hx := h s.buffer hs
  rw [Feeding.call]
  cases hrun : x s.buffer with
  | mk result b =>
    rw [hrun] at hx
    cases result with
    | ok a => exact hx
    | error e => exact hx

theorem retainRange_sized (previousTail chunk : Bytes) (start stop : ℕ) :
    Keeps (fun s ↦ Sized size s.buffer) (fun _ s ↦ Sized size s.buffer)
      (retainRange previousTail chunk start stop) :=
  .ite (fun _ ↦ .pure _) fun _ ↦
    (Keeps.when fun _ ↦ call_sized (retain_sized _)).bind fun _ ↦
      .when fun _ ↦ call_sized (retain_sized _)

theorem completeFrame_sized (previousTail chunk : Bytes) (r i n : ℕ) :
    Keeps (fun s ↦ Sized size s.buffer) (fun _ s ↦ Sized size s.buffer)
      (completeFrame previousTail chunk r i n) := by
  refine Keeps.get.bind fun s ↦ .ite (fun _ ↦ ?_) fun _ ↦ ?_
  · exact (Keeps.modify fun s hs ↦ hs.shut).bind fun _ ↦ .throw fun _ h ↦ h
  · exact (retainRange_sized _ _ _ _).bind fun _ ↦
      (call_sized takeCandidate_sized).bind fun _ ↦ .modify fun _ h ↦ ⟨h.candidate, h.capacity, h.limit⟩

theorem takeLineFeed_sized (previousTail chunk : Bytes) :
    Keeps (fun s ↦ Sized size s.buffer) (fun _ s ↦ Sized size s.buffer)
      (takeLineFeed previousTail chunk) := by
  refine Keeps.get.bind fun s ↦ .ite (fun _ ↦ ?_) fun _ ↦ .pure _
  exact .bind (.modify fun s hs ↦ hs) fun _ ↦ .pure _

theorem scanFeed_sized (previousTail chunk : Bytes) :
    Keeps (fun s ↦ Sized size s.buffer) (fun _ s ↦ Sized size s.buffer)
      (scanFeed previousTail chunk) := by
  refine (takeLineFeed_sized _ _).bind fun _ ↦ .bind (.modify fun _ h ↦ ⟨h.candidate, h.capacity, h.limit⟩) fun _ ↦ ?_
  refine (scanDelimiters_keeps (completeFrame_sized _ _) _ _ _).bind fun p ↦ ?_
  exact (retainRange_sized _ _ _ _).bind fun _ ↦ .when fun _ ↦ .modify fun _ h ↦ ⟨h.candidate, h.capacity, h.limit⟩

theorem feed_sized (chunk : Bytes) :
    Keeps (Sized size) (fun _ ↦ Sized size) (feed isResponsesTerminalFrame chunk) := by
  intro b hb
  rw [feed]
  split
  · exact hb
  split
  · exact hb
  have hscan := scanFeed_sized b.delimiterTail chunk ⟨{ b with delimiterTail := [] }, [], 0⟩
    ⟨hb.candidate, hb.capacity, hb.limit⟩
  split
  · rename_i s hrun
    rw [hrun] at hscan
    exact hscan
  · rename_i e s hrun
    rw [hrun] at hscan
    split
    · exact hscan.shut
    · exact hscan

theorem feedAll_sized (chunks : List Bytes) :
    Keeps (Sized size) (fun _ ↦ Sized size) (feedAll isResponsesTerminalFrame chunks) := by
  induction chunks with
  | nil => exact .pure _
  | cons chunk chunks ih => exact (feed_sized _ chunk).bind fun _ ↦ ih.bind fun _ ↦ .pure _

theorem finish_sized : Keeps (Sized size) (fun _ ↦ Sized size) finish := by
  intro b hb
  rw [finish]
  split
  · exact hb
  · have hkeeps : Keeps (Sized size) (fun _ ↦ Sized size) (do
        retain b.delimiterTail
        modify fun b ↦ { b with delimiterTail := [] }
        takeCandidate : Act BoundedSseFrameBuffer FramingError Bytes) :=
      (retain_sized _).bind fun _ ↦
        .bind (.modify fun _ h ↦ ⟨h.candidate, h.capacity, h.limit⟩) fun _ ↦ takeCandidate_sized
    have hmeets := hkeeps b hb
    generalize (do
        retain b.delimiterTail
        modify fun b ↦ { b with delimiterTail := [] }
        takeCandidate : Act BoundedSseFrameBuffer FramingError Bytes) b = r at hmeets ⊢
    obtain ⟨result, b'⟩ := r
    cases result with
    | ok tail => exact hmeets.shut
    | error e => exact hmeets.shut

theorem frameStream_sized (chunks : List Bytes) :
    Keeps (Sized size) (fun _ ↦ Sized size) (frameStream isResponsesTerminalFrame chunks) :=
  (feedAll_sized _ _).bind fun _ ↦ finish_sized.bind fun _ ↦ .pure _

end BoundedSseFrameBuffer

/-! ## The scanner of the inspector -/

namespace SseScanner

variable {σ : Type} (onFrame onTail : Bytes → σ → σ)

/-- What the scanner does with a block: one that is too long is passed over. -/
def visit (seen : σ) (block : Bytes) : σ :=
  if block.length ≤ maxInspectionSseFrameBytes then onFrame block seen else seen

/-- What the scanner does with the block that no delimiter closed. -/
def visitTail (seen : σ) (tail : Bytes) : σ :=
  if 0 < tail.length ∧ tail.length ≤ maxInspectionSseFrameBytes then onTail tail seen else seen

/-- A scanner that has read so much of the open block. -/
def holding (acc : Bytes) (s : SseScanner σ) : SseScanner σ :=
  { s with
    candidate := if acc.length ≤ maxInspectionSseFrameBytes then acc else []
    discardingOversizedFrame := decide (maxInspectionSseFrameBytes < acc.length) }

variable {onFrame onTail} {s : SseScanner σ} {acc : Bytes}

theorem holding_short (h : acc.length ≤ maxInspectionSseFrameBytes) (s : SseScanner σ) :
    s.holding acc = { s with candidate := acc, discardingOversizedFrame := false } := by
  rw [holding, if_pos h, decide_eq_false (by omega)]

theorem holding_long (h : maxInspectionSseFrameBytes < acc.length) (s : SseScanner σ) :
    s.holding acc = { s with candidate := [], discardingOversizedFrame := true } := by
  rw [holding, if_neg (by omega), decide_eq_true h]

theorem retainCandidateSlice_holding (slice : Bytes) (h : s = s.holding acc) :
    retainCandidateSlice slice s = s.holding (acc ++ slice) := by
  by_cases hlen : acc.length ≤ maxInspectionSseFrameBytes
  · rw [holding_short hlen] at h
    have hcand : s.candidate = acc := by rw [h]
    have hover : s.discardingOversizedFrame = false := by rw [h]
    simp only [retainCandidateSlice, hcand, hover, Bool.false_eq_true, or_false]
    split
    · rename_i hnil
      rw [length_eq_zero_iff.mp hnil, append_nil, holding_short hlen]
      exact h
    split
    · rw [holding_long (by rw [length_append]; omega)]
    · rw [holding_short (by rw [length_append]; omega), ← hover]
  · have hlong : maxInspectionSseFrameBytes < acc.length := by omega
    rw [holding_long hlong] at h
    rw [retainCandidateSlice, if_pos (.inr (by rw [h])),
      holding_long (by rw [length_append]; omega)]
    exact h

theorem holding_holding (acc acc' : Bytes) (s : SseScanner σ) :
    (s.holding acc).holding acc' = s.holding acc' := rfl

theorem retainRange_holding (previousTail chunk : Bytes) {start stop : ℕ} (hle : start ≤ stop)
    (h : s = s.holding acc) :
    retainRange previousTail chunk start stop s =
      s.holding (acc ++ subarray (previousTail ++ chunk) start stop) := by
  rw [retainRange]
  by_cases hstop : stop ≤ start
  · obtain rfl : start = stop := by omega
    rw [if_pos (.inl hstop), subarray_self, append_nil]
    exact h
  by_cases hover : s.discardingOversizedFrame = true
  · rw [if_pos (.inr hover)]
    have hlong : maxInspectionSseFrameBytes < acc.length := by
      rw [h] at hover
      exact of_decide_eq_true hover
    rw [holding_long (by rw [length_append]; omega)]
    rw [holding_long hlong] at h
    exact h
  · rw [if_neg (by simp only [hstop, hover]; simp), ← subarray_append previousTail chunk (by omega),
      ← append_assoc]
    have hfirst : (if start < previousTail.length then
          retainCandidateSlice (subarray previousTail start (min stop previousTail.length)) s
        else s) = s.holding (acc ++ if start < previousTail.length then
          subarray previousTail start (min stop previousTail.length) else []) := by
      split
      · exact retainCandidateSlice_holding _ h
      · rw [append_nil]
        exact h
    simp only [hfirst]
    split
    · rw [retainCandidateSlice_holding _ rfl, holding_holding]
    · rw [append_nil]

theorem completeCandidate_holding (h : s = s.holding acc) :
    completeCandidate onFrame s = { s.holding [] with seen := visit onFrame s.seen acc } := by
  rw [holding_short (zero_le _)]
  by_cases hlen : acc.length ≤ maxInspectionSseFrameBytes
  · rw [holding_short hlen] at h
    rw [completeCandidate, if_neg (by rw [h]; simp), visit, if_pos hlen]
    rw [h]
  · rw [holding_long (by omega)] at h
    rw [completeCandidate, if_pos (by rw [h]), visit, if_neg hlen]
    rw [h]

/-- A scanner between two chunks, having read some bytes from the state `seen₀` on. -/
def Watched (onFrame : Bytes → σ → σ) (seen₀ : σ) (read : Bytes) (s : SseScanner σ) : Prop :=
  s.disposed = false ∧ Undecided s.delimiterTail ∧ ∃ acc closed, s = s.holding acc ∧
    Front read closed acc s.pendingLineFeed s.delimiterTail ∧
    s.seen = closed.foldl (visit onFrame) seen₀

/-- A scanner in the middle of a chunk that follows `read`, the tail `previousTail` in front. -/
def Scanning (onFrame : Bytes → σ → σ) (seen₀ : σ) (read previousTail chunk : Bytes) (i r : ℕ)
    (s : SseScanner σ) : Prop :=
  s.disposed = false ∧ s.delimiterTail = [] ∧ r ≤ i ∧ i ≤ (previousTail ++ chunk).length ∧
    ∃ acc closed, s = s.holding acc ∧
      Front (read ++ chunk) closed (acc ++ subarray (previousTail ++ chunk) r i) s.pendingLineFeed
        ((previousTail ++ chunk).drop i) ∧
      s.seen = closed.foldl (visit onFrame) seen₀

variable {seen₀ : σ} {read previousTail chunk : Bytes} {i r n : ℕ}

theorem Scanning.byte (h : Scanning onFrame seen₀ read previousTail chunk i r s)
    (hi : i < (previousTail ++ chunk).length) (hfound : found (previousTail ++ chunk) i = some 0) :
    Scanning onFrame seen₀ read previousTail chunk (i + 1) r s := by
  obtain ⟨hopen, htail, hr, -, acc, closed, hs, hfront, hseen⟩ := h
  exact ⟨hopen, htail, by omega, hi, acc, closed, hs, hfront.byte hr hi hfound, hseen⟩

theorem Scanning.complete (h : Scanning onFrame seen₀ read previousTail chunk i r s)
    (hi : i < (previousTail ++ chunk).length)
    (hfound : found (previousTail ++ chunk) i = some (n + 1)) :
    Meets (fun _ ↦ Scanning onFrame seen₀ read previousTail chunk (i + (n + 1)) (i + (n + 1)))
      (fun _ _ ↦ False) (completeFrame onFrame previousTail chunk r i (n + 1) s) := by
  obtain ⟨hopen, htail, hr, -, acc, closed, hs, hfront, hseen⟩ := h
  have hlen := found_length (by rwa [found_drop hi.le] at hfound)
  rw [length_drop] at hlen
  have hnext := hfront.delimit hi hfound
  rw [waits, length_append] at hnext
  rw [completeFrame, modify_run, retainRange_holding previousTail chunk hr hs,
    completeCandidate_holding rfl, byteAt_fun]
  refine ⟨hopen, htail, le_refl _, by omega, [],
    closed ++ [acc ++ subarray (previousTail ++ chunk) r i], rfl, ?_, ?_⟩
  · simpa [subarray_self] using hnext
  · rw [foldl_append, ← hseen]
    rfl

theorem Scanning.loop (h : Scanning onFrame seen₀ read previousTail chunk i i s) : Meets
      (fun p s' ↦ Scanning onFrame seen₀ read previousTail chunk p.1 p.2 s' ∧
        (p.1 < (previousTail ++ chunk).length → found (previousTail ++ chunk) p.1 = none))
      (fun _ _ ↦ False)
      (scanDelimiters (previousTail.length + chunk.length) (byteAt previousTail chunk)
        (completeFrame onFrame previousTail chunk) (previousTail.length + chunk.length) i i s) := by
  rw [← length_append, byteAt_fun]
  exact scanDelimiters_ensures _ (fun i r s hs hi hf ↦ hs.byte hi hf)
    (fun i r n hi hf s hs ↦ hs.complete hi hf) (le_add_right _ _) s h

theorem Scanning.stop (h : Scanning onFrame seen₀ read previousTail chunk i r s)
    (hend : i < (previousTail ++ chunk).length → found (previousTail ++ chunk) i = none) :
    Watched onFrame seen₀ (read ++ chunk) (if i < previousTail.length + chunk.length then
        { retainRange previousTail chunk r i s with
          delimiterTail := copyRange i (previousTail.length + chunk.length)
            (byteAt previousTail chunk) }
      else retainRange previousTail chunk r i s) := by
  obtain ⟨hopen, htail, hr, hbound, acc, closed, hs, hfront, hseen⟩ := h
  rw [retainRange_holding previousTail chunk hr hs, ← length_append, byteAt_fun]
  split
  · rename_i hi
    have hnone := hend hi
    rw [found_drop hi.le] at hnone
    rw [copyRange_rest hi.le]
    exact ⟨hopen, found_none hnone, _, closed, rfl, hfront, hseen⟩
  · rw [drop_of_length_le (by omega)] at hfront
    refine ⟨hopen, .inl htail, _, closed, rfl, ?_, hseen⟩
    rw [show (s.holding _).delimiterTail = [] from htail]
    exact hfront

/-- An empty chunk changes nothing where no tail is left: a late line feed is still waited for. -/
theorem feed_nothing (h : s.delimiterTail = []) : feed onFrame [] s = s := by
  have hsame : ({ s with delimiterTail := [] } : SseScanner σ) = s := by rw [← h]
  rw [feed]
  split
  · rfl
  · rw [scanChunk, bind_run, get_run, andThen_ok, h, byteAt_eq]
    simp only [append_nil, getElem?_nil, reduceCtorEq, and_false, if_false,
      length_nil, add_zero, gt_iff_lt, lt_irrefl]
    exact hsame

/-- **One chunk**, seen by the scanner. -/
theorem feed_watched (h : Watched onFrame seen₀ read s) (chunk : Bytes) :
    Watched onFrame seen₀ (read ++ chunk) (feed onFrame chunk s) := by
  obtain ⟨hopen, hund, acc, closed, hs, hfront, hseen⟩ := h
  by_cases hnil : s.delimiterTail ++ chunk = []
  · obtain ⟨htail, rfl⟩ := append_eq_nil_iff.mp hnil
    rw [feed_nothing htail, append_nil]
    exact ⟨hopen, hund, acc, closed, hs, hfront, hseen⟩
  rw [feed, if_neg (by rw [hopen]; simp), scanChunk, bind_run, get_run, andThen_ok,
    bind_run, modify_run, andThen_ok, byteAt_eq]
  have hread := hfront.read hnil
  have hpos := length_pos_iff.mpr hnil
  rw [length_append] at hpos
  rw [skip_lateLineFeed] at hread
  rw [if_pos hpos]
  generalize hindex : (if s.pendingLineFeed = true ∧ (s.delimiterTail ++ chunk)[0]? = some 10
    then 1 else 0) = i at hread ⊢
  have hi : i ≤ (s.delimiterTail ++ chunk).length := by
    rw [← hindex, length_append]
    split <;> omega
  have hstart : Scanning onFrame seen₀ read s.delimiterTail chunk i i
      { s with delimiterTail := [], pendingLineFeed := false } := by
    refine ⟨hopen, rfl, le_refl _, hi, acc, closed, ?_, ?_, hseen⟩
    · exact congrArg (fun s : SseScanner σ ↦
        { s with delimiterTail := [], pendingLineFeed := false }) hs
    · rw [subarray_self, append_nil]
      exact hread
  have hloop := hstart.loop
  rw [bind_run]
  cases hrun : scanDelimiters (s.delimiterTail.length + chunk.length)
      (byteAt s.delimiterTail chunk) (completeFrame onFrame s.delimiterTail chunk)
      (s.delimiterTail.length + chunk.length) i i
      { s with delimiterTail := [], pendingLineFeed := false } with
  | mk result s₁ =>
    rw [hrun] at hloop
    cases result with
    | error e => exact hloop.elim
    | ok p =>
      obtain ⟨index, retainedThrough⟩ := p
      have hstop := hloop.1.stop hloop.2
      rw [andThen_ok]
      simp only [bind_run, modify_run, andThen_ok, when]
      split
      · rename_i hlt
        rw [if_pos hlt] at hstop
        exact hstop
      · rename_i hlt
        rw [if_neg hlt] at hstop
        exact hstop

theorem feeds_watched (h : Watched onFrame seen₀ read s) (chunks : List Bytes) :
    Watched onFrame seen₀ (read ++ chunks.flatten)
      (chunks.foldl (fun s chunk ↦ feed onFrame chunk s) s) := by
  induction chunks generalizing read s with
  | nil => simpa using h
  | cons chunk chunks ih =>
    have hnext := ih (feed_watched h chunk)
    rwa [append_assoc] at hnext

theorem new_watched (onFrame : Bytes → σ → σ) (seen : σ) : Watched onFrame seen [] (new seen) :=
  ⟨rfl, .inl rfl, [], [], rfl, .start _ _, rfl⟩

theorem Watched.seen_eq (h : Watched onFrame seen₀ read s) :
    s.seen = (blocksOf read).1.foldl (visit onFrame) seen₀ := by
  obtain ⟨hopen, hund, acc, closed, hs, hfront, hseen⟩ := h
  rw [hfront.blocks hund, hseen]

theorem finish_watched (h : Watched onFrame seen₀ read s) (onTail : Bytes → σ → σ) :
    (finish onTail s).seen =
      visitTail onTail ((blocksOf read).1.foldl (visit onFrame) seen₀) (blocksOf read).2 := by
  obtain ⟨hopen, hund, acc, closed, hs, hfront, hseen⟩ := h
  rw [finish, if_neg (by rw [hopen]; simp), hfront.blocks hund, ← hseen,
    retainCandidateSlice_holding s.delimiterTail hs]
  generalize acc ++ s.delimiterTail = last
  simp only [clearFrameState, holding, decide_eq_false_iff_not, not_lt, visitTail]
  by_cases hlen : last.length ≤ maxInspectionSseFrameBytes
  · simp only [hlen, if_true, true_and, and_true]
    split <;> rfl
  · simp only [hlen, false_and, and_false, if_false]

/-- **The inspector cuts the stream as the frame buffer does**, however it is fed: it looks at the
blocks of the stream in order, passing over those that are too long, and then at the open block. -/
theorem scanStream_seen (onFrame onTail : Bytes → σ → σ) (chunks : List Bytes) (seen : σ) :
    (scanStream onFrame onTail chunks seen).seen =
      visitTail onTail ((blocksOf chunks.flatten).1.foldl (visit onFrame) seen)
        (blocksOf chunks.flatten).2 :=
  finish_watched (feeds_watched (new_watched onFrame seen) chunks) onTail

theorem blocksOf_append (read chunk : Bytes) :
    (blocksOf read).1 <+: (blocksOf (read ++ chunk)).1 := by
  obtain ⟨-, hund, acc, closed, -, hfront, -⟩ :=
    feed_watched (new_watched (fun _ (u : Unit) ↦ u) ()) read
  rw [nil_append] at hfront
  rw [hfront.blocks hund]
  exact hfront.closed_kept chunk

/-- The blocks that each chunk closes, where `read` came before. -/
def deliveries (read : Bytes) : List Bytes → List (List Bytes)
  | [] => []
  | chunk :: chunks =>
    (blocksOf (read ++ chunk)).1.drop (blocksOf read).1.length :: deliveries (read ++ chunk) chunks

theorem deliveries_head (read chunk : Bytes) :
    (blocksOf read).1 ++ (blocksOf (read ++ chunk)).1.drop (blocksOf read).1.length =
      (blocksOf (read ++ chunk)).1 := by
  obtain ⟨later, hlater⟩ := blocksOf_append read chunk
  rw [← hlater, drop_left]

theorem deliveries_flatten (read : Bytes) (chunks : List Bytes) :
    (blocksOf read).1 ++ (deliveries read chunks).flatten =
      (blocksOf (read ++ chunks.flatten)).1 := by
  induction chunks generalizing read with
  | nil => simp [deliveries]
  | cons chunk chunks ih =>
    rw [deliveries, flatten_cons, flatten_cons, ← append_assoc, deliveries_head, ih, append_assoc]

theorem Watched.feed_seen (h : Watched onFrame seen₀ read s) (chunk : Bytes) :
    (feed onFrame chunk s).seen =
      ((blocksOf (read ++ chunk)).1.drop (blocksOf read).1.length).foldl (visit onFrame) s.seen := by
  rw [(feed_watched h chunk).seen_eq, h.seen_eq, ← foldl_append, deliveries_head]

end SseScanner

/-! ## The two framers -/

open BoundedSseFrameBuffer SseScanner

/-- **Framing loses no byte and does not depend on the chunks.**  Take a stream whose blocks fit in
the bound of a buffer, fed in two ways that never complete more blocks in one feed than the buffer
admits.  Both times the frames returned and the tail of `finish` are the stream, byte for byte, and
their blocks are the ones that pairs of line endings cut it into.  Whatever a buffer is fed, its
candidate never outgrows the bound; and the scanner of the inspector looks at the same blocks in the
same order. -/
theorem framing_exact {maxFrameBytes : ℕ} {b : BoundedSseFrameBuffer}
    (hnew : BoundedSseFrameBuffer.new maxFrameBytes = some b)
    (isResponsesTerminalFrame : Bytes → Bool) (chunks chunks' : List Bytes)
    (hsame : chunks'.flatten = chunks.flatten) (hfit : BlocksFit maxFrameBytes chunks.flatten)
    (hfeeds : FeedsFit b.maxFramesPerFeed [] chunks)
    (hfeeds' : FeedsFit b.maxFramesPerFeed [] chunks') :
    (∃ frames frames' tail, (frameStream isResponsesTerminalFrame chunks b).1 = .ok (frames, tail) ∧
      (frameStream isResponsesTerminalFrame chunks' b).1 = .ok (frames', tail) ∧
      frameBytes frames ++ tail = chunks.flatten ∧ frameBytes frames' ++ tail = chunks.flatten ∧
      (newBlocks frames, tail) = blocksOf chunks.flatten ∧
      (newBlocks frames', tail) = blocksOf chunks.flatten) ∧
    (∀ any : List Bytes,
      (feedAll isResponsesTerminalFrame any b).2.candidate.length ≤ maxFrameBytes ∧
      (feedAll isResponsesTerminalFrame any b).2.capacity ≤ maxFrameBytes ∧
      (frameStream isResponsesTerminalFrame any b).2.candidate.length ≤ maxFrameBytes) ∧
    (∀ (σ : Type) (onFrame onTail : Bytes → σ → σ) (seen : σ),
      (scanStream onFrame onTail chunks seen).seen =
        visitTail onTail ((blocksOf chunks.flatten).1.foldl (visit onFrame) seen)
          (blocksOf chunks.flatten).2) := by
  refine ⟨?_, fun any ↦ ?_, fun σ onFrame onTail seen ↦ scanStream_seen onFrame onTail chunks seen⟩
  · obtain ⟨frames, tail, b₁, hrun, hbytes, hblocks⟩ :=
      frameStream_framed isResponsesTerminalFrame hnew hfit hfeeds
    obtain ⟨frames', tail', b₂, hrun', hbytes', hblocks'⟩ :=
      frameStream_framed isResponsesTerminalFrame hnew (hsame ▸ hfit) hfeeds'
    rw [hsame] at hbytes' hblocks'
    have htail : tail' = tail := congrArg Prod.snd (hblocks'.symm.trans hblocks)
    subst htail
    exact ⟨frames, frames', tail', by rw [hrun], by rw [hrun'], hbytes, hbytes', hblocks.symm,
      hblocks'.symm⟩
  · have hsized := new_sized hnew
    have hfed := (feedAll_sized isResponsesTerminalFrame any).after hsized
    have hframed := (frameStream_sized isResponsesTerminalFrame any).after hsized
    exact ⟨hfed.length_le, hfed.capacity, hframed.length_le⟩

/-- A carriage return at the end of one chunk, its line feed at the head of the next: the frame that was
reported is extended, and the tail is the same. -/
theorem framing_exact_late_line_feed : ∃ frames frames' tail,
      (frameStream (fun _ ↦ false) [[97, 10, 13], [10, 98]]
        ⟨2, 1, [], [], 0, false, false⟩).1 = .ok (frames, tail) ∧
      (frameStream (fun _ ↦ false) [[97], [10, 13, 10, 98]]
        ⟨2, 1, [], [], 0, false, false⟩).1 = .ok (frames', tail) ∧
      frameBytes frames ++ tail = [97, 10, 13, 10, 98] ∧
      frameBytes frames' ++ tail = [97, 10, 13, 10, 98] := by
  have hblocks : blocksOf [97, 10, 13, 10, 98] = ([[97]], [98]) := by
    simp [blocksOf, Cutting.blocks, linePair, lineEnding]
  have hfirst : blocksOf [97, 10, 13] = ([[97]], []) := by
    simp [blocksOf, Cutting.blocks, linePair, lineEnding]
  have hletter : blocksOf [97] = ([], [97]) := by
    simp [blocksOf, Cutting.blocks, linePair, lineEnding]
  obtain ⟨frames, frames', tail, hrun, hrun', hbytes, hbytes', -, -⟩ :=
    (framing_exact (show BoundedSseFrameBuffer.new 2 = some _ from rfl) (fun _ ↦ false) [[97, 10, 13], [10, 98]]
      [[97], [10, 13, 10, 98]] rfl
      (by simp [BlocksFit, hblocks])
      (feedsFit_cons (by simp [hfirst]) (feedsFit_cons (by simp [hfirst, hblocks]) (feedsFit_nil _ _)))
      (feedsFit_cons (by simp [hletter])
        (feedsFit_cons (by simp [hletter, hblocks]) (feedsFit_nil _ _)))).1
  exact ⟨frames, frames', tail, hrun, hrun', hbytes, hbytes'⟩

end Sse
