import OpenCodex.Connect.FramingAgree

/-!
# Frames through both consumers

A frame that a consumer finds is written again byte for byte (`encode_test`), and one that
`encodeConnectFrame` writes is found again whatever follows it (`test_encode`).  So the frames of a
batch and what is left over are the bytes it was taken from, and a stream of encoded frames comes out
as it was sent.  How it was cut does not matter, and neither does how many slots were free after each
piece: frames for which there was no slot are still in what is carried (`feed_sent`).
-/

set_option autoImplicit false

open List Framer

namespace Connect

variable {M : ℕ}

/-! ## Flags -/

theorem or_eq_self {flags flag : UInt8} (h : flags &&& flag = flag) : flags ||| flag = flags := by
  rw [← UInt8.toBitVec_inj]
  ext i hi
  have hbit := congrArg (fun x : UInt8 ↦ x.toBitVec[i]) h
  simp only [UInt8.toBitVec_and, BitVec.getElem_and] at hbit
  simp only [UInt8.toBitVec_or, BitVec.getElem_or]
  revert hbit
  cases flags.toBitVec[i] <;> cases flag.toBitVec[i] <;> simp

/-- The options a frame that was read is written again with. -/
def ConnectFrame.options (f : ConnectFrame) : EncodeOptions :=
  ⟨some f.flags.toNat, f.compressed, f.endStream⟩

def ConnectFrame.encode (f : ConnectFrame) : Except ConnectFrameError (List UInt8) :=
  encodeConnectFrame f.payload f.options

theorem flagsWith_options (flags : UInt8) (payload : List UInt8) :
    flagsWith (frameOf flags payload).options flags = flags := by
  have hc : (if isConnectFrameCompressed flags = true then flags ||| connectFlagCompressed
      else flags) = flags := by
    split_ifs with h
    · exact or_eq_self (by simpa [isConnectFrameCompressed] using h)
    · rfl
  have he : (if isConnectFrameEndStream flags = true then flags ||| connectFlagEndStream
      else flags) = flags := by
    split_ifs with h
    · exact or_eq_self (by simpa [isConnectFrameEndStream] using h)
    · rfl
  show (if isConnectFrameEndStream flags = true then
    (if isConnectFrameCompressed flags = true then _ else flags) ||| connectFlagEndStream
      else if isConnectFrameCompressed flags = true then _ else flags) = flags
  rw [hc, he]

/-! ## Writing what was read -/

theorem take_three (l : List UInt8) {n : ℕ} (h : 1 ≤ l.length) :
    l.take (connectFrameHeaderBytes + n) =
      l.getD 0 0 :: (l.slice 1 4 ++ l.slice connectFrameHeaderBytes n) := by
  cases l with
  | nil => nomatch h
  | cons b l =>
    rw [getD_cons_zero, show connectFrameHeaderBytes + n = (4 + n) + 1 by
      rw [connectFrameHeaderBytes]; omega, take_succ_cons, take_add]
    rfl

/-- **A frame that was found is written again byte for byte.** -/
theorem encode_test {l : List UInt8} {size : ℕ} {f : ConnectFrame}
    (h : (connectFramer M).test l = .frame size f) : f.encode = .ok (l.take size) := by
  obtain ⟨-, hsize, hfits, rfl⟩ := verdictAt_frame.mp h
  rw [connectFrameHeaderBytes] at hsize
  have hhead : (l.slice 1 4).length = 4 := by
    rw [List.slice, length_take, length_drop]
    omega
  have hpayload : (l.slice (0 + connectFrameHeaderBytes) (lengthAt l 0)).length = lengthAt l 0 := by
    rw [List.slice, length_take, length_drop, connectFrameHeaderBytes]
    omega
  have hlt : lengthAt l 0 < 256 ^ 4 := hhead ▸ BigEndian.value_lt (l.slice 1 4)
  have hbytes : BigEndian.bytes 4 (lengthAt l 0) = l.slice 1 4 := by
    have h4 := BigEndian.bytes_value (l.slice 1 4)
    rwa [hhead] at h4
  have hflags : (l.getD 0 0).toNat < 256 := UInt8.toNat_lt _
  rw [ConnectFrame.encode, encodeConnectFrame]
  simp only [frameOf, ConnectFrame.options, Option.getD_some, hpayload]
  rw [if_neg (by rw [maxConnectFramePayloadBytes]; omega), if_neg (by omega), Int.toNat_natCast,
    UInt8.ofNat_toNat, hbytes]
  have hf := flagsWith_options (l.getD 0 0) (l.slice (0 + connectFrameHeaderBytes) (lengthAt l 0))
  rw [frameOf, ConnectFrame.options] at hf
  rw [hf, hsize, ← connectFrameHeaderBytes, take_three l (by omega), Nat.zero_add]

variable {rest input : List UInt8} {frames : List ConnectFrame}

/-- **Nothing is lost**: the frames that were taken, written again, and what is left over are the
buffer. -/
theorem encode_taken (n : ℕ) (h : (connectFramer M).drainSome n input = (frames, .ok rest)) :
    ∃ pieces, frames.mapM ConnectFrame.encode = .ok pieces ∧ pieces.flatten ++ rest = input := by
  induction n generalizing input frames with
  | zero =>
    obtain ⟨rfl, rfl⟩ := h
    exact ⟨[], rfl, rfl⟩
  | succ n ih =>
    cases ht : (connectFramer M).test input with
    | more =>
      rw [drainSome_more ht, Prod.mk.injEq, Except.ok.injEq] at h
      obtain ⟨rfl, rfl⟩ := h
      exact ⟨[], rfl, rfl⟩
    | fail e =>
      rw [drainSome_fail ht, Prod.mk.injEq] at h
      exact absurd h.2 (by simp)
    | frame size f =>
      rw [drainSome_frame ht, Prod.mk.injEq] at h
      obtain ⟨rfl, hrest⟩ := h
      obtain ⟨pieces, hpieces, hflat⟩ := ih (Prod.ext rfl hrest)
      refine ⟨input.take size :: pieces, ?_, ?_⟩
      · rw [mapM_cons, encode_test ht, hpieces]
        rfl
      · rw [flatten_cons, append_assoc, hflat, take_append_drop]

theorem encode_takeUpTo (room : Option ℕ)
    (h : (connectFramer M).takeUpTo room input = (frames, .ok rest)) :
    ∃ pieces, frames.mapM ConnectFrame.encode = .ok pieces ∧ pieces.flatten ++ rest = input := by
  cases room with
  | none =>
    refine encode_taken (M := M) (input.length + 1) ?_
    rw [drainSome_eq_drain (Nat.lt_succ_self _)]
    exact h
  | some n => exact encode_taken n h

/-! ## Reading what was written -/

/-- The flags that a frame is sent with. -/
def EncodeOptions.sent (options : EncodeOptions) : UInt8 :=
  flagsWith options (UInt8.ofNat (options.flags.getD 0).toNat)

variable {payload bytes : List UInt8} {options : EncodeOptions}

theorem encode_ok (h : encodeConnectFrame payload options = .ok bytes) :
    payload.length ≤ maxConnectFramePayloadBytes ∧
      bytes = options.sent :: (BigEndian.bytes 4 payload.length ++ payload) := by
  rw [encodeConnectFrame] at h
  dsimp only at h
  split_ifs at h with hlong hflags
  exact ⟨by omega, (Except.ok.inj h).symm⟩

/-- **A frame that was written is found again**, whatever follows it. -/
theorem test_encode (h : encodeConnectFrame payload options = .ok bytes) (hmax : payload.length ≤ M)
    (m : List UInt8) : (connectFramer M).test (bytes ++ m) =
      .frame bytes.length (frameOf options.sent payload) := by
  obtain ⟨hlong, rfl⟩ := encode_ok h
  have hheader : lengthAt (options.sent :: (BigEndian.bytes 4 payload.length ++ payload) ++ m) 0 =
      payload.length := by
    rw [lengthAt, List.slice, cons_append, append_assoc, Nat.zero_add,
      drop_succ_cons, drop_zero, take_left' (BigEndian.length_bytes 4 _)]
    exact BigEndian.value_bytes (by rw [maxConnectFramePayloadBytes] at hlong; omega)
  have hlen : (options.sent :: (BigEndian.bytes 4 payload.length ++ payload)).length =
      connectFrameHeaderBytes + payload.length := by
    rw [length_cons, length_append, BigEndian.length_bytes, connectFrameHeaderBytes]
    omega
  refine verdictAt_frame.mpr ⟨hheader.symm ▸ hmax, by rw [hheader, hlen], ?_, ?_⟩
  · rw [length_append]
    omega
  · rw [hheader, Nat.zero_add, List.slice, cons_append, append_assoc,
      connectFrameHeaderBytes, drop_succ_cons,
      drop_left' (BigEndian.length_bytes 4 _), take_left]
    rfl

/-- A frame that is sent: a payload, and the options it is written with. -/
structure Sending where
  payload : List UInt8
  options : EncodeOptions

namespace Sending

def encode (s : Sending) : Except ConnectFrameError (List UInt8) :=
  encodeConnectFrame s.payload s.options

/-- The frame that is to arrive. -/
def frame (s : Sending) : ConnectFrame := frameOf s.options.sent s.payload

end Sending

variable {sendings : List Sending} {pieces : List (List UInt8)}

theorem drain_sent (h : sendings.mapM Sending.encode = .ok pieces)
    (hmax : ∀ s ∈ sendings, s.payload.length ≤ M) :
    (connectFramer M).drain pieces.flatten = (sendings.map (·.frame), .ok []) := by
  induction sendings generalizing pieces with
  | nil =>
    obtain rfl := Except.ok.inj h
    exact drain_more test_nil
  | cons s sendings ih =>
    rw [mapM_cons] at h
    cases hs : s.encode with
    | error e => rw [hs] at h; nomatch h
    | ok piece =>
      cases hrest : sendings.mapM Sending.encode with
      | error e => rw [hs, hrest] at h; nomatch h
      | ok pieces' =>
        rw [hs, hrest] at h
        obtain rfl := Except.ok.inj h
        have htest := test_encode (M := M) hs (hmax s mem_cons_self) pieces'.flatten
        rw [flatten_cons, drain_frame htest, drop_left,
          ih hrest fun s' hs' ↦ hmax s' (mem_cons_of_mem _ hs')]
        rfl

/-! ## Streams -/

/-- What a reader has when it calls `decodeAvailableConnectFrames` after each piece, with so many slots,
and carries the remainder. -/
def feedDecode (M : ℕ) : List (Option ℕ × List UInt8) → List UInt8 →
    Except Thrown (List ConnectFrame × List UInt8)
  | [], remainder => .ok ([], remainder)
  | turn :: turns, remainder => do
    let r ← (decodeAvailableConnectFrames unreserved (remainder ++ turn.2) M turn.1 []).1
    let r' ← feedDecode M turns r.remainder
    pure (r.frames ++ r'.1, r'.2)

/-- What a reader has when it calls `consumeConnectFrames` after each piece, on its backlog from a
cursor on, and advances the cursor. -/
def feedConsume (M : ℕ) : List (Option ℕ × List UInt8) → List UInt8 → ℕ →
    Except ConnectFrameError (List ConnectFrame × ℕ)
  | [], _, cursor => .ok ([], cursor)
  | turn :: turns, backlog, cursor => do
    let backlog := backlog ++ turn.2
    let r ← consumeConnectFrames (backlog.drop cursor) M turn.1
    let r' ← feedConsume M turns backlog (cursor + r.consumedBytes)
    pure (r.frames ++ r'.1, r'.2)

variable {slots : Option ℕ}

theorem decode_of_available {r : List ConnectFrame × List UInt8}
    (h : available M input slots = .ok r) :
    (decodeAvailableConnectFrames unreserved input M slots []).1 = .ok ⟨r.1, r.2⟩ := by
  obtain ⟨taken, -, hrun⟩ := decodeAvailableConnectFrames_run (M := M) unreserved input slots []
  revert hrun
  cases (decodeAvailableConnectFrames unreserved input M slots []).1 with
  | error e =>
    rintro ⟨⟨-, n, bytes, hn⟩ | ⟨e', -, he'⟩, -⟩
    · nomatch hn
    · exact absurd (h.symm.trans he') (by simp)
  | ok r' =>
    rintro ⟨hr', -⟩
    rw [Except.ok.inj (h.symm.trans hr')]

theorem consume_of_available (h : available M input slots = .ok (frames, rest)) :
    ∃ n ≤ input.length, consumeConnectFrames input M slots = .ok ⟨frames, n⟩ ∧
      rest = input.drop n := by
  have hplans := plans_available (M := M) input slots
  rw [available, collect] at h
  revert h hplans
  generalize (connectFramer M).takeUpTo slots input = r
  obtain ⟨frames', e | rest'⟩ := r
  · intro h
    cases h
  · intro h
    obtain ⟨rfl, rfl⟩ := Prod.ext_iff.mp (Except.ok.inj h)
    rintro ⟨found, offset, hplan, hfound, ho, hrest⟩
    refine ⟨offset, ho, ?_, hrest⟩
    rw [consumeConnectFrames, hplan]
    exact congrArg (fun l ↦ Except.ok (⟨l, offset⟩ : ConsumedConnectFrames)) hfound

/-- **Either reader takes what a `Framer`'s reader takes**, unless a frame is too large. -/
theorem feed_of_readTurns (turns : List (Option ℕ × List UInt8)) {backlog : List UInt8} {cursor : ℕ}
    (hc : cursor ≤ backlog.length)
    (h : (connectFramer M).readTurns turns (backlog.drop cursor) = (frames, .ok rest)) :
    feedDecode M turns (backlog.drop cursor) = .ok (frames, rest) ∧
      ∃ cursor', feedConsume M turns backlog cursor = .ok (frames, cursor') ∧
        rest = (backlog ++ (turns.map (·.2)).flatten).drop cursor' := by
  induction turns generalizing backlog cursor frames with
  | nil =>
    obtain ⟨rfl, rfl⟩ := h
    exact ⟨rfl, cursor, rfl, by rw [map_nil, flatten_nil, append_nil]⟩
  | cons turn turns ih =>
    rw [readTurns, ← drop_append_of_le_length hc] at h
    cases hr : (connectFramer M).takeUpTo turn.1 ((backlog ++ turn.2).drop cursor) with
    | mk taken result =>
      rw [hr] at h
      cases result with
      | error e =>
        rw [Framer.andThen_error, Prod.mk.injEq] at h
        exact absurd h.2 (by simp)
      | ok left =>
        rw [Framer.andThen_ok, Prod.mk.injEq] at h
        have havailable : available M ((backlog ++ turn.2).drop cursor) turn.1 =
            .ok (taken, left) := by rw [available, hr]; rfl
        obtain ⟨n, hn, hconsume, hleft⟩ := consume_of_available havailable
        rw [length_drop] at hn
        rw [drop_drop] at hleft
        subst hleft
        have hlen : cursor ≤ (backlog ++ turn.2).length := by
          rw [length_append]
          omega
        obtain ⟨hdecode, cursor', hfeed, hrest⟩ := ih (by omega) (Prod.ext rfl h.2)
        refine ⟨?_, cursor', ?_, ?_⟩
        · rw [feedDecode, ← drop_append_of_le_length hc, decode_of_available havailable]
          show feedDecode M turns _ >>= _ = _
          rw [hdecode, ← h.1]
          rfl
        · rw [feedConsume, hconsume]
          show feedConsume M turns _ _ >>= _ = _
          rw [hfeed, ← h.1]
          rfl
        · rw [hrest, map_cons, flatten_cons, append_assoc]

variable {turns : List (Option ℕ × List UInt8)}

/-- What a reader has taken of a stream of frames, and what it has left, is that stream; and with
slots for all after the last piece, it has taken all. -/
theorem readTurns_sent (h : sendings.mapM Sending.encode = .ok pieces)
    (hmax : ∀ s ∈ sendings, s.payload.length ≤ M)
    (hturns : (turns.map (·.2)).flatten = pieces.flatten) :
    ∃ taken left rest, (connectFramer M).readTurns turns [] = (taken, .ok rest) ∧
      taken ++ left = sendings.map (·.frame) ∧ (connectFramer M).drain rest = (left, .ok []) := by
  have hdrain := drain_readTurns (F := connectFramer M) turns []
  rw [nil_append, hturns, drain_sent h hmax] at hdrain
  cases hr : (connectFramer M).readTurns turns [] with
  | mk taken result =>
    rw [hr] at hdrain
    cases result with
    | error e =>
      rw [Framer.andThen_error, Prod.mk.injEq] at hdrain
      exact absurd hdrain.2 (by simp)
    | ok rest =>
      rw [Framer.andThen_ok, Prod.mk.injEq] at hdrain
      exact ⟨taken, _, rest, rfl, hdrain.1.symm, Prod.ext rfl hdrain.2.symm⟩

theorem test_readTurns {piece buf : List UInt8} {taken : List ConnectFrame}
    (h : (connectFramer M).readTurns (turns ++ [(none, piece)]) buf = (taken, .ok rest)) :
    (connectFramer M).test rest = .more := by
  induction turns generalizing buf taken with
  | nil =>
    rw [nil_append, readTurns, takeUpTo] at h
    cases hr : (connectFramer M).drain (buf ++ piece) with
    | mk values result =>
      rw [hr] at h
      cases result with
      | error e =>
        rw [Framer.andThen_error, Prod.mk.injEq] at h
        exact absurd h.2 (by simp)
      | ok left =>
        rw [Framer.andThen_ok, Prod.mk.injEq, readTurns, Except.ok.injEq] at h
        rw [← h.2]
        exact test_of_drain hr
  | cons turn turns ih =>
    rw [cons_append, readTurns] at h
    cases hr : (connectFramer M).takeUpTo turn.1 (buf ++ turn.2) with
    | mk values result =>
      rw [hr] at h
      cases result with
      | error e =>
        rw [Framer.andThen_error, Prod.mk.injEq] at h
        exact absurd h.2 (by simp)
      | ok left =>
        rw [Framer.andThen_ok, Prod.mk.injEq] at h
        exact ih (Prod.ext rfl h.2)

/-- **A stream of frames comes out of either reader as it was sent**, whatever its pieces: what was
taken comes first, and what is carried is the frames that are still to be taken. -/
theorem feed_sent (h : sendings.mapM Sending.encode = .ok pieces)
    (hmax : ∀ s ∈ sendings, s.payload.length ≤ M)
    (hturns : (turns.map (·.2)).flatten = pieces.flatten) :
    ∃ taken left rest cursor, taken ++ left = sendings.map (·.frame) ∧
      feedDecode M turns [] = .ok (taken, rest) ∧ feedConsume M turns [] 0 = .ok (taken, cursor) ∧
      rest = pieces.flatten.drop cursor ∧
      (∃ pieces', left.mapM ConnectFrame.encode = .ok pieces' ∧ pieces'.flatten = rest) ∧
      ((∃ turns' piece, turns = turns' ++ [(none, piece)]) → left = [] ∧ rest = []) := by
  obtain ⟨taken, left, rest, hread, hsent, hleft⟩ := readTurns_sent h hmax hturns
  obtain ⟨hdecode, cursor, hconsume, hrest⟩ := feed_of_readTurns turns (Nat.zero_le [].length) hread
  obtain ⟨pieces', hpieces', hflat⟩ := encode_takeUpTo none hleft
  rw [nil_append, hturns] at hrest
  refine ⟨taken, left, rest, cursor, hsent, hdecode, hconsume, hrest,
    ⟨pieces', hpieces', by rw [← hflat, append_nil]⟩, ?_⟩
  rintro ⟨turns', piece, rfl⟩
  rw [drain_more (test_readTurns hread), Prod.mk.injEq, Except.ok.injEq] at hleft
  exact ⟨hleft.1.symm, hleft.2⟩

/-! ## The two consumers -/

/-- **The two frame consumers agree and lose nothing.**  Without a refusal they hand out the same
frames and leave the same bytes, or fail alike; the frames, written again, and these bytes are the
input; a stream of frames comes out as it was sent, however it was cut; and a batch that fails has
released every reservation it took. -/
theorem connect_frames_agree (M : ℕ) :
    (∀ reserver : Reserver, (∀ n bytes, reserver n bytes ≠ .refused) →
      ∀ (input : List UInt8) (slots : Option ℕ) (ledger : Ledger),
        (decodeAvailableConnectFrames reserver input M slots ledger).1.map
            (fun r ↦ (r.frames, r.remainder)) =
          ((consumeConnectFrames input M slots).mapError .frame).map
            fun r ↦ (r.frames, input.drop r.consumedBytes)) ∧
    (∀ (input : List UInt8) (slots : Option ℕ) (r : ConsumedConnectFrames),
      consumeConnectFrames input M slots = .ok r → ∃ pieces,
        r.frames.mapM ConnectFrame.encode = .ok pieces ∧
          pieces.flatten ++ input.drop r.consumedBytes = input) ∧
    (∀ (sendings : List Sending) (pieces : List (List UInt8)),
      sendings.mapM Sending.encode = .ok pieces → (∀ s ∈ sendings, s.payload.length ≤ M) →
      ∀ turns : List (Option ℕ × List UInt8), (turns.map (·.2)).flatten = pieces.flatten →
        ∃ taken left rest cursor, taken ++ left = sendings.map (·.frame) ∧
          feedDecode M turns [] = .ok (taken, rest) ∧
          feedConsume M turns [] 0 = .ok (taken, cursor) ∧ rest = pieces.flatten.drop cursor ∧
          (∃ pieces', left.mapM ConnectFrame.encode = .ok pieces' ∧ pieces'.flatten = rest) ∧
          ((∃ turns' piece, turns = turns' ++ [(none, piece)]) → left = [] ∧ rest = [])) ∧
    ∀ (reserver : Reserver) (input : List UInt8) (slots : Option ℕ) (ledger ledger' : Ledger)
      (e : Thrown), decodeAvailableConnectFrames reserver input M slots ledger = (.error e, ledger') →
        ∃ taken, ledger' = ledger ++ taken ∧ ∀ r ∈ taken, r.state = .released := by
  refine ⟨fun reserver hr input slots ledger ↦ ?_, fun input slots r hr ↦ ?_, ?_, ?_⟩
  · obtain ⟨taken, -, hrun⟩ := decodeAvailableConnectFrames_run (M := M) reserver input slots ledger
    have hconsume := consumeConnectFrames_eq (M := M) input slots
    revert hrun
    cases (decodeAvailableConnectFrames reserver input M slots ledger).1 with
    | error e =>
      rintro ⟨⟨-, n, bytes, hn⟩ | ⟨e', rfl, he'⟩, -⟩
      · exact absurd hn (hr n bytes)
      · rw [he'] at hconsume
        cases hc : consumeConnectFrames input M slots with
        | error e =>
          rw [hc] at hconsume
          rw [Except.error.inj hconsume]
          rfl
        | ok r => rw [hc] at hconsume; cases hconsume
    | ok r =>
      rintro ⟨havailable, -⟩
      rw [havailable] at hconsume
      cases hc : consumeConnectFrames input M slots with
      | error e => rw [hc] at hconsume; cases hconsume
      | ok r' =>
        rw [hc] at hconsume
        exact congrArg Except.ok (Except.ok.inj hconsume).symm
  · have hconsume := consumeConnectFrames_eq (M := M) input slots
    rw [hr, available] at hconsume
    cases ht : (connectFramer M).takeUpTo slots input with
    | mk frames result =>
      rw [ht] at hconsume
      cases result with
      | error e => cases hconsume
      | ok rest =>
        obtain ⟨hframes, hrest⟩ := Prod.ext_iff.mp (Except.ok.inj hconsume)
        obtain ⟨pieces, hpieces, hflat⟩ := encode_takeUpTo slots ht
        refine ⟨pieces, ?_, ?_⟩
        · rw [show r.frames = frames from hframes, hpieces]
        · rw [show input.drop r.consumedBytes = rest from hrest, hflat]
  · exact fun sendings pieces h hmax turns hturns ↦ feed_sent h hmax hturns
  · intro reserver input slots ledger ledger' e h
    obtain ⟨taken, hledger, hrun⟩ := decodeAvailableConnectFrames_run (M := M) reserver input slots
      ledger
    rw [h] at hledger hrun
    exact ⟨taken, hledger, hrun.2⟩

/-- Two frames, cut inside both headers, with one slot at first; and a batch whose second copy is
refused, which gives the first one back. -/
theorem two_frames_in_three_pieces :
    feedDecode 10 [(some 1, [2, 0, 0]), (some 1, [0, 1, 7, 0, 0]), (none, [0, 0, 1, 9])] [] =
      .ok ([frameOf 2 [7], frameOf 0 [9]], []) ∧
    ∃ taken, (decodeAvailableConnectFrames (fun n _ ↦ if n = 1 then .refused else .granted)
        [2, 0, 0, 0, 1, 7, 0, 0, 0, 0, 1, 9] 10 none []).2 = [] ++ taken ∧
      ∀ r ∈ taken, r.state = .released := by
  obtain ⟨taken, left, rest, cursor, hsent, hdecode, -, -, -, hall⟩ :=
    (connect_frames_agree 10).2.2.1 [⟨[7], ⟨none, false, true⟩⟩, ⟨[9], ⟨none, false, false⟩⟩]
      [[2, 0, 0, 0, 1, 7], [0, 0, 0, 0, 1, 9]] rfl (by decide)
      [(some 1, [2, 0, 0]), (some 1, [0, 1, 7, 0, 0]), (none, [0, 0, 1, 9])] rfl
  obtain ⟨rfl, rfl⟩ := hall ⟨[(some 1, [2, 0, 0]), (some 1, [0, 1, 7, 0, 0])], [0, 0, 1, 9], rfl⟩
  rw [append_nil] at hsent
  refine ⟨by rw [hdecode, hsent]; rfl, ?_⟩
  exact (connect_frames_agree 10).2.2.2 (fun n _ ↦ if n = 1 then .refused else .granted)
    [2, 0, 0, 0, 1, 7, 0, 0, 0, 0, 1, 9] none [] _ .refused rfl

end Connect
