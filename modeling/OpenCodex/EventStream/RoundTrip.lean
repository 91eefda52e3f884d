import OpenCodex.Data.Utf8Strict
import OpenCodex.EventStream.Frames

/-!
# Event streams, written and read

`encodeMessage` writes a frame with string headers.  What decoding makes of it is `seen`: the strings
have gone through UTF-8, and the headers through an object.  Read back from a stream, however it was
cut, a list of messages is the list of what is seen of them (`decodeEventStream_encodeMessage`), and
for texts that UTF-8 and the decoder leave alone that is the list itself
(`event_stream_framing_exact`).
-/

set_option autoImplicit false

open List BigEndian

namespace EventStream

/-! ## Encoding -/

def headersBytes (headers : Headers) : List UInt8 := headers.entries.flatMap headerBytes

/-- The length of the frame of a message. -/
def messageLen (m : EventStreamMessage) : ℕ :=
  headerBlockOffset + (headersBytes m.headers).length + m.payload.length + messageCrcLen

def preludeBytes (m : EventStreamMessage) : List UInt8 :=
  BigEndian.bytes 4 (messageLen m) ++ BigEndian.bytes 4 (headersBytes m.headers).length

/-- A frame without its trailing checksum. -/
def bodyBytes (m : EventStreamMessage) : List UInt8 :=
  preludeBytes m ++ (BigEndian.bytes 4 (checksum (preludeBytes m)) ++
    (headersBytes m.headers ++ m.payload))

def encodeMessage (m : EventStreamMessage) : List UInt8 :=
  bodyBytes m ++ BigEndian.bytes 4 (checksum (bodyBytes m))

/-- What a message is after encoding and decoding. -/
def seen (m : EventStreamMessage) : EventStreamMessage :=
  ⟨m.headers.entries.foldl seenHeader OMap.empty, m.payload⟩

/-- The limits of the format. -/
structure Fits (m : EventStreamMessage) : Prop where
  header : ∀ header ∈ m.headers.entries, HeaderFits header
  headers : (headersBytes m.headers).length ≤ maxHeadersLen
  total : messageLen m ≤ maxMessageLen

instance (m : EventStreamMessage) : Decidable (Fits m) :=
  decidable_of_iff ((∀ header ∈ m.headers.entries, HeaderFits header) ∧
    (headersBytes m.headers).length ≤ maxHeadersLen ∧ messageLen m ≤ maxMessageLen)
    ⟨fun h ↦ ⟨h.1, h.2.1, h.2.2⟩, fun h ↦ ⟨h.header, h.headers, h.total⟩⟩

theorem length_preludeBytes (m : EventStreamMessage) : (preludeBytes m).length = preludeLen := by
  rfl

theorem length_bodyBytes (m : EventStreamMessage) :
    (bodyBytes m).length = messageLen m - messageCrcLen := by
  have hprelude : preludeLen = 8 := rfl
  have hcrc : messageCrcLen = 4 := rfl
  have hoffset : headerBlockOffset = 12 := rfl
  simp only [bodyBytes, length_append, length_preludeBytes, length_bytes, messageLen]
  omega

theorem length_encodeMessage (m : EventStreamMessage) :
    (encodeMessage m).length = messageLen m := by
  have hcrc : messageCrcLen = 4 := rfl
  rw [encodeMessage, length_append, length_bodyBytes, length_bytes, messageLen]
  omega

section Layout

variable (m : EventStreamMessage)

/-! ## Where the parts of a frame stand -/

theorem stands_body : Stands (encodeMessage m) (bodyBytes m) 0 := Stands.head _ _

theorem stands_prelude : Stands (encodeMessage m) (preludeBytes m) 0 := (stands_body m).left

theorem stands_total : Stands (encodeMessage m) (BigEndian.bytes 4 (messageLen m)) 0 :=
  (stands_prelude m).left

theorem stands_headersLen :
    Stands (encodeMessage m) (BigEndian.bytes 4 (headersBytes m.headers).length) 4 := by
  have h := (stands_prelude m).right
  exact h

theorem stands_preludeCrc :
    Stands (encodeMessage m) (BigEndian.bytes 4 (checksum (preludeBytes m))) 8 := by
  have h := (stands_body m).right.left
  exact h

theorem stands_headers : Stands (encodeMessage m) (headersBytes m.headers) headerBlockOffset := by
  have h := (stands_body m).right.right.left
  exact h

theorem stands_payload : Stands (encodeMessage m) m.payload
    (headerBlockOffset + (headersBytes m.headers).length) := by
  have h := (stands_body m).right.right.right
  exact h

theorem stands_messageCrc : Stands (encodeMessage m)
    (BigEndian.bytes 4 (checksum (bodyBytes m))) (messageLen m - messageCrcLen) := by
  have h := (Stands.whole (encodeMessage m)).right
  rw [length_bodyBytes, Nat.zero_add] at h
  exact h

variable {m}

theorem getUint32_stands {buf : List UInt8} {p n : ℕ} (h : Stands buf (BigEndian.bytes 4 n) p)
    (hn : n < 256 ^ 4) : getUint32 buf p = n := by
  have hslice := h.slice
  rw [length_bytes] at hslice
  rw [getUint32, hslice, value_bytes hn]

theorem getUint32_total (h : Fits m) : getUint32 (encodeMessage m) 0 = messageLen m := by
  have htotal := h.total
  have hmax : maxMessageLen = 16777216 := rfl
  exact getUint32_stands (stands_total m) (by omega)

theorem getUint32_headersLen (h : Fits m) :
    getUint32 (encodeMessage m) 4 = (headersBytes m.headers).length := by
  have hheaders := h.headers
  have hmax : maxHeadersLen = 131072 := rfl
  exact getUint32_stands (stands_headersLen m) (by omega)

theorem getUint32_preludeCrc (m : EventStreamMessage) :
    getUint32 (encodeMessage m) 8 = checksum ((encodeMessage m).slice 0 preludeLen) := by
  have hslice := (stands_prelude m).slice
  rw [length_preludeBytes] at hslice
  rw [getUint32_stands (stands_preludeCrc m) (checksum_lt _), hslice]

theorem getUint32_messageCrc (m : EventStreamMessage) :
    getUint32 (encodeMessage m) (messageLen m - messageCrcLen) =
      checksum ((encodeMessage m).slice 0 (messageLen m - messageCrcLen)) := by
  have hslice := (stands_body m).slice
  rw [length_bodyBytes] at hslice
  rw [getUint32_stands (stands_messageCrc m) (checksum_lt _), hslice]

/-! ## Reading back -/

/-- **A written frame is decoded.** -/
theorem decodeMessage_encodeMessage (h : Fits m) :
    decodeMessage (encodeMessage m) = .ok (seen m) := by
  have hmin : minMessageLen = 16 := rfl
  have hcrc : messageCrcLen = 4 := rfl
  have hoffset : headerBlockOffset = 12 := rfl
  have hlen : messageLen m =
    headerBlockOffset + (headersBytes m.headers).length + m.payload.length + messageCrcLen := rfl
  have hpayload : messageLen m - messageCrcLen -
      (headerBlockOffset + (headersBytes m.headers).length) = m.payload.length := by omega
  rw [decodeMessage, length_encodeMessage, if_neg (by omega)]
  simp only [getUint32_total h, getUint32_headersLen h]
  rw [if_neg (not_not.mpr rfl), if_neg (not_lt.mpr h.total),
    if_neg (not_not.mpr (getUint32_preludeCrc m).symm), if_neg (not_lt.mpr h.headers),
    if_neg (by omega), if_neg (not_not.mpr (getUint32_messageCrc m).symm), hpayload,
    (stands_headers m).slice, (stands_payload m).slice, headersBytes,
    parseHeaders_headerBytes _ h.header]
  rfl

theorem nextFrame_encodeMessage (h : Fits m) (after : List UInt8) :
    nextFrame (encodeMessage m ++ after) = .frame (encodeMessage m).length (seen m) := by
  have hmin : minMessageLen = 16 := rfl
  have hoffset : headerBlockOffset = 12 := rfl
  have hlen : messageLen m =
    headerBlockOffset + (headersBytes m.headers).length + m.payload.length + messageCrcLen := rfl
  have hcrc : messageCrcLen = 4 := rfl
  have hframe : frames.test (encodeMessage m) = .frame (encodeMessage m).length (seen m) := by
    have hprelude : checkPrelude (encodeMessage m) = .ok () := by
      rw [checkPrelude, if_neg (not_not.mpr (getUint32_preludeCrc m).symm),
        getUint32_headersLen h, if_neg (not_lt.mpr h.headers)]
    have hall : (encodeMessage m).slice 0 (messageLen m) = encodeMessage m := by
      rw [← length_encodeMessage]
      exact (Stands.whole _).slice
    change nextFrame (encodeMessage m) = _
    rw [nextFrame_four (by rw [length_encodeMessage]; omega), getUint32_total h,
      if_neg (by omega), if_neg (not_lt.mpr h.total),
      if_pos (by rw [length_encodeMessage]; omega), hprelude, hall,
      decodeMessage_encodeMessage h, length_encodeMessage]
    exact if_neg (lt_irrefl _)
  exact frames.frame_stands hframe after

theorem drain_encodeMessage (messages : List EventStreamMessage) (h : ∀ m ∈ messages, Fits m) :
    frames.drain (messages.flatMap encodeMessage) = (messages.map seen, .ok []) := by
  induction messages with
  | nil => exact Framer.drain_more rfl
  | cons m messages ih =>
    have hnext := nextFrame_encodeMessage (h m (mem_cons_self ..)) (messages.flatMap encodeMessage)
    rw [flatMap_cons, Framer.drain_frame hnext, drop_left,
      ih fun m' hm' ↦ h m' (mem_cons_of_mem _ hm')]
    rfl

theorem decodeEventStream_encodeMessage {messages : List EventStreamMessage}
    (h : ∀ m ∈ messages, Fits m) {chunks : List (List UInt8)}
    (hchunks : chunks.flatten = messages.flatMap encodeMessage) :
    decodeEventStream chunks = (messages.map seen, .ok ()) := by
  rw [decodeEventStream_eq, hchunks, drain_encodeMessage messages h]
  rfl

end Layout

/-! ## What is seen of a message -/

/-- A text that UTF-8 spells and a decoder leaves alone: it is made of scalar values, and no byte
order mark is at its head. -/
def Plain (s : JsString) : Prop :=
  ∃ points : List ℕ, (∀ p ∈ points, Utf8.Scalar p) ∧ points.head? ≠ some Utf8.byteOrderMark ∧
    points.flatMap Utf8.unitsOf = s

theorem Plain.textOf_bytesOf {s : JsString} (h : Plain s) : Utf8.textOf (Utf8.bytesOf s) = s := by
  obtain ⟨points, hscalar, hmark, rfl⟩ := h
  rw [Utf8.textOf, Utf8.bytesOf, Utf8.pointsOf_units hscalar, Utf8.decode, Utf8.run_encodes hscalar]
  have hdrop : Utf8.dropMark points = points := by
    cases points with
    | nil => rfl
    | cons p points =>
      rw [head?_cons, ne_eq, Option.some_inj] at hmark
      exact if_neg hmark
  have hflush : Utf8.flush Utf8.ground = [] := rfl
  simp only [hflush, append_nil, hdrop]

/-- Names and values that come through unchanged. -/
structure PlainHeader (header : JsString × JsString) : Prop where
  name : Plain header.1
  value : Plain header.2
  proto : header.1 ≠ js "__proto__"

/-- **A message of plain headers is what is seen of it.** -/
theorem seen_eq {m : EventStreamMessage} (h : ∀ header ∈ m.headers.entries, PlainHeader header) :
    seen m = m := by
  have hfold : ∀ (headers : List (JsString × JsString)) (out : Headers),
      (∀ header ∈ headers, PlainHeader header) →
      headers.foldl seenHeader out = out.setAll headers := by
    intro headers
    induction headers with
    | nil => intro out _; rfl
    | cons header headers ih =>
      intro out hplain
      have hheader := hplain header (mem_cons_self ..)
      rw [foldl_cons, seenHeader, hheader.name.textOf_bytesOf, hheader.value.textOf_bytesOf,
        setHeader, if_neg hheader.proto, ih _ fun h hh ↦ hplain h (mem_cons_of_mem _ hh)]
      rfl
  rw [seen, hfold _ _ h, OMap.rebuild]

/-! ## Streams that end inside a frame -/

/-- Bytes whose first four say how many there are. -/
def Framed (frame : List UInt8) : Prop := 4 ≤ frame.length ∧ getUint32 frame 0 = frame.length

theorem nextFrame_framed {frame : List UInt8} (h : Framed frame) (after : List UInt8) :
    (∃ error, nextFrame (frame ++ after) = .fail error) ∨
      ∃ message, nextFrame (frame ++ after) = .frame frame.length message := by
  have hlonger : frame.length ≤ (frame ++ after).length := by
    rw [length_append]
    exact Nat.le_add_right ..
  rw [nextFrame_four (h.1.trans hlonger), getUint32_append h.1, h.2]
  split
  · exact .inl ⟨_, rfl⟩
  · split
    · exact .inl ⟨_, rfl⟩
    · split
      · exact .inl ⟨_, rfl⟩
      · rw [if_neg (not_lt.mpr hlonger)]
        split
        · exact .inl ⟨_, rfl⟩
        · exact .inr ⟨_, rfl⟩

variable {part missing : List UInt8}

theorem nextFrame_part (h : Framed (part ++ missing)) (hmissing : missing ≠ []) :
    (∃ error, nextFrame part = .fail error) ∨ nextFrame part = .more := by
  have hshort : part.length < (part ++ missing).length := by
    have hpos := length_pos_iff.mpr hmissing
    rw [length_append]
    omega
  by_cases hfour : 4 ≤ part.length
  · have htotal : getUint32 part 0 = (part ++ missing).length := by
      rw [← h.2, getUint32_append hfour]
    rw [nextFrame_four hfour, htotal]
    split
    · exact .inl ⟨_, rfl⟩
    · split
      · exact .inl ⟨_, rfl⟩
      · split
        · exact .inl ⟨_, rfl⟩
        · exact .inr rfl
  · exact .inr (if_pos (not_le.mp hfour))

theorem drain_part (complete : List (List UInt8)) (hcomplete : ∀ frame ∈ complete, Framed frame)
    (h : Framed (part ++ missing)) (hmissing : missing ≠ []) :
    (∃ error, (frames.drain (complete.flatten ++ part)).2 = .error error) ∨
      (frames.drain (complete.flatten ++ part)).2 = .ok part := by
  induction complete with
  | nil =>
    rw [flatten_nil, nil_append]
    rcases nextFrame_part h hmissing with ⟨error, hfail⟩ | hmore
    · have hdrain := Framer.drain_fail (show frames.test part = _ from hfail)
      exact .inl ⟨error, by rw [hdrain]⟩
    · have hdrain := Framer.drain_more (show frames.test part = _ from hmore)
      exact .inr (by rw [hdrain])
  | cons frame complete ih =>
    rw [flatten_cons, append_assoc]
    rcases nextFrame_framed (hcomplete frame (mem_cons_self ..)) (complete.flatten ++ part)
      with ⟨error, hfail⟩ | ⟨message, hframe⟩
    · have hdrain := Framer.drain_fail (show frames.test _ = _ from hfail)
      exact .inl ⟨error, by rw [hdrain]⟩
    · have hdrain := Framer.drain_frame (show frames.test _ = _ from hframe)
      rw [hdrain, drop_left]
      exact ih fun f hf ↦ hcomplete f (mem_cons_of_mem _ hf)

/-- **A stream that ends inside a frame fails.** -/
theorem decodeEventStream_part {complete : List (List UInt8)}
    (hcomplete : ∀ frame ∈ complete, Framed frame) (hpart : part ≠ [])
    (h : Framed (part ++ missing)) (hmissing : missing ≠ []) {chunks : List (List UInt8)}
    (hchunks : chunks.flatten = complete.flatten ++ part) :
    ∃ error, (decodeEventStream chunks).2 = .error error := by
  rw [decodeEventStream_eq, hchunks, finish]
  rcases drain_part complete hcomplete h hmissing with ⟨error, hdrain⟩ | hdrain
  · rw [hdrain]
    exact ⟨error, rfl⟩
  · rw [hdrain]
    refine ⟨.truncatedStream, ?_⟩
    simp only
    rw [if_pos (length_pos_iff.mpr hpart)]

/-! ## The framing -/

/-- **Event-stream framing is exact.**  Messages within the limits and with plain headers come back
from a stream as they were, in order, however the stream was cut; how a stream is cut never matters;
a stream that ends inside a frame fails; and the header parser stays inside its block. -/
theorem event_stream_framing_exact :
    (∀ (messages : List EventStreamMessage) (chunks : List (List UInt8)),
      (∀ m ∈ messages, Fits m ∧ ∀ header ∈ m.headers.entries, PlainHeader header) →
      chunks.flatten = messages.flatMap encodeMessage →
      decodeEventStream chunks = (messages, .ok ())) ∧
    (∀ chunks chunks' : List (List UInt8), chunks.flatten = chunks'.flatten →
      decodeEventStream chunks = decodeEventStream chunks') ∧
    (∀ (complete : List (List UInt8)) (part missing : List UInt8) (chunks : List (List UInt8)),
      (∀ frame ∈ complete, Framed frame) → part ≠ [] → Framed (part ++ missing) → missing ≠ [] →
      chunks.flatten = complete.flatten ++ part →
      ∃ error, (decodeEventStream chunks).2 = .error error) ∧
    ∀ buf : List UInt8, ∀ r ∈ (parseHeaders buf).reads, r.1 + r.2 ≤ buf.length := by
  refine ⟨?_, ?_, ?_, ?_⟩
  · intro messages chunks h hchunks
    rw [decodeEventStream_encodeMessage (fun m hm ↦ (h m hm).1) hchunks]
    have hseen : ∀ m ∈ messages, seen m = m := fun m hm ↦ seen_eq (h m hm).2
    rw [map_congr_left hseen, List.map_id']
  · intro chunks chunks' h
    rw [decodeEventStream_eq, decodeEventStream_eq, h]
  · intro complete part missing chunks hcomplete hpart h hmissing hchunks
    exact decodeEventStream_part hcomplete hpart h hmissing hchunks
  · exact parseHeaders_inBlock

/-- A message with one header and two bytes. -/
def oneHeader (name value : JsString) : EventStreamMessage :=
  ⟨OMap.empty.set name value, [0x68, 0x69]⟩

def greeting : EventStreamMessage := oneHeader (js "k") (js "v")

theorem greeting_fits : Fits greeting := by decide +kernel

/-- A greeting cut in its fifth byte is read back; without the second piece the stream fails. -/
theorem greeting_framing :
    decodeEventStream [(encodeMessage greeting).take 5, [], (encodeMessage greeting).drop 5] =
      ([greeting], .ok ()) ∧
    decodeEventStream [(encodeMessage greeting).take 5, (encodeMessage greeting).drop 5] =
      decodeEventStream [encodeMessage greeting] ∧
    ∃ error, (decodeEventStream [(encodeMessage greeting).take 5]).2 = .error error := by
  have hk : ∀ header ∈ greeting.headers.entries, PlainHeader header := by
    intro header hh
    obtain rfl := mem_singleton.mp hh
    exact ⟨⟨[0x6b], by decide, by decide, rfl⟩, ⟨[0x76], by decide, by decide, rfl⟩,
      by decide +kernel⟩
  have hlen := length_encodeMessage greeting
  have hsize : messageLen greeting = 24 := by decide +kernel
  refine ⟨event_stream_framing_exact.1 [greeting] _ ?_ ?_, event_stream_framing_exact.2.1 _ _ ?_,
    event_stream_framing_exact.2.2.1 [] ((encodeMessage greeting).take 5)
      ((encodeMessage greeting).drop 5) _ ?_ ?_ ?_ ?_ ?_⟩
  · intro m hm
    obtain rfl := mem_singleton.mp hm
    exact ⟨greeting_fits, hk⟩
  · simp
  · simp
  · exact nofun
  · refine ne_nil_of_length_pos ?_
    rw [length_take]
    omega
  · rw [take_append_drop]
    refine ⟨by omega, ?_⟩
    rw [getUint32_total greeting_fits, hlen]
  · refine ne_nil_of_length_pos ?_
    rw [length_drop]
    omega
  · simp

theorem changed_of_seen_ne {m : EventStreamMessage} (hfits : Fits m) (hseen : seen m ≠ m) :
    Fits m ∧ decodeEventStream [encodeMessage m] ≠ ([m], .ok ()) := by
  refine ⟨hfits, fun heq ↦ hseen ?_⟩
  have hone : ∀ m' ∈ [m], Fits m' := fun m' hm' ↦ mem_singleton.mp hm' ▸ hfits
  have hchunks : [encodeMessage m].flatten = [m].flatMap encodeMessage := by simp
  have hread := decodeEventStream_encodeMessage hone hchunks
  rw [heq] at hread
  exact (List.cons.inj (Prod.mk.inj hread).1).1.symm

/-- **Not every text comes through.**  A byte order mark at the head of a value is dropped, a lone
surrogate is replaced, and a header named `__proto__` is lost. -/
theorem framing_changes_header : (Fits (oneHeader (js "k") (0xfeff :: js "ok")) ∧
      decodeEventStream [encodeMessage (oneHeader (js "k") (0xfeff :: js "ok"))] ≠
        ([oneHeader (js "k") (0xfeff :: js "ok")], .ok ())) ∧ (Fits (oneHeader (js "k") [0xd800]) ∧
      decodeEventStream [encodeMessage (oneHeader (js "k") [0xd800])] ≠
        ([oneHeader (js "k") [0xd800]], .ok ())) ∧ Fits (oneHeader (js "__proto__") (js "v")) ∧
      decodeEventStream [encodeMessage (oneHeader (js "__proto__") (js "v"))] ≠
        ([oneHeader (js "__proto__") (js "v")], .ok ()) := by
  refine ⟨changed_of_seen_ne ?_ ?_, changed_of_seen_ne ?_ ?_, changed_of_seen_ne ?_ ?_⟩
  all_goals decide +kernel

end EventStream
