import OpenCodex.Data.Bytes
import OpenCodex.Data.JsonText
import OpenCodex.Data.OMap
import OpenCodex.Data.Utf8

/-!
# The headers of an event-stream message

A message of `application/vnd.amazon.eventstream` carries a block of headers, each a length byte, the
name in UTF-8, a type byte and a value whose shape the type gives: ten types, of which two have no
bytes at all and two say how long they are.  `parseHeaders` reads the block by position and writes
every value as a string.

The code reads through views of a larger buffer, so that it matters which bytes it reads.  A `Parse`
is what a piece of the parser comes to *and* which ranges of its block it has read; `need` stands
before every read, and so every range lies inside the block, whatever its bytes are
(`parseHeaders_inBlock`).  A block as the encoder writes it, of string headers only, is read back as
the strings that decoding gives (`parseHeaders_headerBytes`).
-/

set_option autoImplicit false

open List

namespace EventStream

open BigEndian

/-! ## Errors -/

/-- Why a decoder throws. -/
inductive EventStreamError where
  | frameTooShort
  | framedLength (total buffer : ℕ)
  | totalExceeds (total : ℕ)
  | belowMinimum (total : ℕ)
  | preludeCrc
  | headersExceed (headersLen : ℕ)
  | headersExceedPayload
  | messageCrc
  | truncatedHeader (label : String)
  | unknownType (type : ℕ)
  /-- A timestamp that no date has. -/
  | invalidDate
  | bufferedExceeds
  | truncatedStream
  deriving DecidableEq

def EventStreamError.message : EventStreamError → String
  | frameTooShort => "eventstream: frame too short"
  | framedLength total buffer =>
    "eventstream: framed length " ++ toString total ++ " != buffer " ++ toString buffer
  | totalExceeds total => "eventstream: total length " ++ toString total ++ " exceeds maximum"
  | belowMinimum total => "eventstream: total length " ++ toString total ++ " below minimum"
  | preludeCrc => "eventstream: prelude CRC mismatch"
  | headersExceed headersLen =>
    "eventstream: headers length " ++ toString headersLen ++ " exceeds maximum"
  | headersExceedPayload => "eventstream: headers length exceeds frame payload"
  | messageCrc => "eventstream: message CRC mismatch"
  | truncatedHeader label => "eventstream: truncated header " ++ label
  | unknownType type => "eventstream: unknown header value type " ++ toString type
  | invalidDate => "Invalid Date"
  | bufferedExceeds => "eventstream: buffered frame exceeds maximum 16777216"
  | truncatedStream => "eventstream: truncated message at end of stream"

/-! ## Parsing by position -/

/-- What a parse comes to, and the ranges it has read, as positions and lengths. -/
structure Parse (α : Type) where
  reads : List (ℕ × ℕ)
  result : Except EventStreamError α

namespace Parse

variable {α β : Type}

def pure (a : α) : Parse α := ⟨[], .ok a⟩

def throw (error : EventStreamError) : Parse α := ⟨[], .error error⟩

def bind (x : Parse α) (f : α → Parse β) : Parse β :=
  match x.result with
  | .error error => ⟨x.reads, .error error⟩
  | .ok a => ⟨x.reads ++ (f a).reads, (f a).result⟩

instance : Monad Parse where
  pure := Parse.pure
  bind := Parse.bind

/-- Every range that was read lies inside the first so many bytes. -/
def InBlock (x : Parse α) (n : ℕ) : Prop := ∀ r ∈ x.reads, r.1 + r.2 ≤ n

theorem inBlock_pure (a : α) (n : ℕ) : (Pure.pure a : Parse α).InBlock n := nofun

theorem inBlock_throw (error : EventStreamError) (n : ℕ) : (throw error : Parse α).InBlock n :=
  nofun

variable {x : Parse α}

variable {f : α → Parse β}

theorem InBlock.bind {n : ℕ} (hx : x.InBlock n) (hf : ∀ a, x.result = .ok a → (f a).InBlock n) :
    (x >>= f).InBlock n := by
  intro r hr
  change r ∈ (x.bind f).reads at hr
  rw [Parse.bind] at hr
  cases hres : x.result with
  | error error => rw [hres] at hr; exact hx r hr
  | ok a =>
    rw [hres] at hr
    rcases mem_append.mp hr with hr | hr
    · exact hx r hr
    · exact hf a hres r hr

theorem result_bind_ok {a : α} (hx : x.result = .ok a) (f : α → Parse β) :
    (x >>= f).result = (f a).result := by
  change (x.bind f).result = (f a).result
  rw [Parse.bind, hx]

theorem ok_of_bind {b : β} (h : (x >>= f).result = .ok b) :
    ∃ a, x.result = .ok a ∧ (f a).result = .ok b := by
  change (x.bind f).result = .ok b at h
  rw [Parse.bind] at h
  cases hres : x.result with
  | error error => rw [hres] at h; nomatch h
  | ok a => rw [hres] at h; exact ⟨a, rfl, h⟩

end Parse

section Block

variable (buf : List UInt8)

/-- So many bytes are there, or the header is truncated. -/
def need (p n : ℕ) (label : String) : Parse Unit :=
  if buf.length < p + n then .throw (.truncatedHeader label) else pure ()

/-- A view of so many bytes. -/
def subarray (p n : ℕ) : Parse (List UInt8) := ⟨[(p, n)], .ok (buf.slice p n)⟩

/-- An unsigned number of so many bytes. -/
def getUint (p n : ℕ) : Parse ℕ := ⟨[(p, n)], .ok (value (buf.slice p n))⟩

variable {buf}

variable {p n : ℕ}

variable {label : String}

theorem need_ok (h : p + n ≤ buf.length) : (need buf p n label).result = .ok () := by
  rw [need, if_neg (not_lt.mpr h)]
  rfl

theorem inBlock_need {α : Type} {f : Unit → Parse α}
    (h : p + n ≤ buf.length → (f ()).InBlock buf.length) :
    (need buf p n label >>= f).InBlock buf.length := by
  refine .bind ?_ fun _ hok ↦ h ?_
  · rw [need]
    split
    · exact Parse.inBlock_throw _ _
    · exact Parse.inBlock_pure _ _
  · by_contra hshort
    rw [need, if_pos (not_le.mp hshort)] at hok
    nomatch hok

theorem inBlock_subarray (h : p + n ≤ buf.length) : (subarray buf p n).InBlock buf.length := by
  intro r hr
  rw [mem_singleton.mp hr]
  exact h

theorem inBlock_getUint (h : p + n ≤ buf.length) : (getUint buf p n).InBlock buf.length := by
  intro r hr
  rw [mem_singleton.mp hr]
  exact h

end Block

/-! ## The values as strings -/

/-- `String(n)`. -/
def decimalInt (n : ℤ) : JsString := (if n < 0 then js "-" else []) ++ Json.decimal n.natAbs

/-- The digits of a number, filled up with zeros. -/
def padStart (width n : ℕ) : JsString :=
  List.replicate (width - (Json.decimal n).length) 0x30 ++ Json.decimal n

/-- A byte as two hexadecimal digits. -/
def hexByte (b : UInt8) : JsString := [Json.hexUnit (b.toNat / 16), Json.hexUnit (b.toNat % 16)]

def base64Unit (n : ℕ) : CodeUnit :=
  if n < 26 then UInt16.ofNat (0x41 + n)
  else if n < 52 then UInt16.ofNat (0x61 + (n - 26))
  else if n < 62 then Json.digitUnit (n - 52)
  else if n = 62 then 0x2b else 0x2f

/-- `Buffer.toString("base64")`. -/
def base64 : List UInt8 → JsString
  | [] => []
  | [a] => [base64Unit (a.toNat / 4), base64Unit (a.toNat % 4 * 16), 0x3d, 0x3d]
  | [a, b] =>
    [base64Unit (a.toNat / 4), base64Unit (a.toNat % 4 * 16 + b.toNat / 16),
      base64Unit (b.toNat % 16 * 4), 0x3d]
  | a :: b :: c :: rest =>
    base64Unit (a.toNat / 4) :: base64Unit (a.toNat % 4 * 16 + b.toNat / 16) ::
      base64Unit (b.toNat % 16 * 4 + c.toNat / 64) :: base64Unit (c.toNat % 64) :: base64 rest

/-- The largest distance of a date from the epoch, in milliseconds. -/
def maxDateMs : ℤ := 8640000000000000

/-- A year of four digits, or of six and a sign. -/
def isoYear (year : ℤ) : JsString :=
  if 0 ≤ year ∧ year ≤ 9999 then padStart 4 year.natAbs
  else (if year < 0 then js "-" else js "+") ++ padStart 6 year.natAbs

/-- `new Date(ms).toISOString()` of a valid date: the proleptic Gregorian calendar, counted in eras of
400 years that begin in March. -/
def toISOString (ms : ℤ) : JsString :=
  let days := ms / 86400000 + 719468
  let time := (ms % 86400000).toNat
  let dayOfEra := (days % 146097).toNat
  let yearOfEra := (dayOfEra - dayOfEra / 1460 + dayOfEra / 36524 - dayOfEra / 146096) / 365
  let dayOfYear := dayOfEra - (365 * yearOfEra + yearOfEra / 4 - yearOfEra / 100)
  let march := (5 * dayOfYear + 2) / 153
  let day := dayOfYear - (153 * march + 2) / 5 + 1
  let month := if march < 10 then march + 3 else march - 9
  let year := yearOfEra + days / 146097 * 400 + (if month ≤ 2 then 1 else 0)
  isoYear year ++ js "-" ++ padStart 2 month ++ js "-" ++ padStart 2 day ++ js "T" ++
    padStart 2 (time / 3600000) ++ js ":" ++ padStart 2 (time / 60000 % 60) ++ js ":" ++
    padStart 2 (time / 1000 % 60) ++ js "." ++ padStart 3 (time % 1000) ++ js "Z"

/-- A universally unique identifier, in its five groups. -/
def uuidText (bytes : List UInt8) : JsString :=
  let hex (p n : ℕ) : JsString := (bytes.slice p n).flatMap hexByte
  hex 0 4 ++ js "-" ++ hex 4 2 ++ js "-" ++ hex 6 2 ++ js "-" ++ hex 8 2 ++ js "-" ++ hex 10 6

/-! ## Parsing the block -/

/-- The headers as an object of strings. -/
abbrev Headers := OMap JsString JsString

/-- `out[name] = value` on a plain object: under the name `__proto__` a string is ignored. -/
def setHeader (out : Headers) (name value : JsString) : Headers :=
  if name = js "__proto__" then out else out.set name value

section Block

variable (buf : List UInt8)

/-- A value of the given type, and the position behind it. -/
def parseValue (p type : ℕ) : Parse (JsString × ℕ) :=
  match type with
  | 0 => pure (js "true", p)
  | 1 => pure (js "false", p)
  | 2 => do
    need buf p 1 "byte value"
    let v ← getUint buf p 1
    pure (decimalInt (signed 8 v), p + 1)
  | 3 => do
    need buf p 2 "short value"
    let v ← getUint buf p 2
    pure (decimalInt (signed 16 v), p + 2)
  | 4 => do
    need buf p 4 "integer value"
    let v ← getUint buf p 4
    pure (decimalInt (signed 32 v), p + 4)
  | 5 => do
    need buf p 8 "long value"
    let bytes ← subarray buf p 8
    pure (decimalInt (signed 64 (value bytes)), p + 8)
  | 6 => do
    need buf p 2 "byte-array length"
    let len ← getUint buf p 2
    need buf (p + 2) len "byte-array value"
    let bytes ← subarray buf (p + 2) len
    pure (base64 bytes, p + 2 + len)
  | 7 => do
    need buf p 2 "string length"
    let len ← getUint buf p 2
    need buf (p + 2) len "string value"
    let bytes ← subarray buf (p + 2) len
    pure (Utf8.textOf bytes, p + 2 + len)
  | 8 => do
    need buf p 8 "timestamp value"
    let bytes ← subarray buf p 8
    let ms := signed 64 (value bytes)
    if maxDateMs < |ms| then .throw .invalidDate else pure (toISOString ms, p + 8)
  | 9 => do
    need buf p 16 "uuid value"
    let bytes ← subarray buf p 16
    pure (uuidText bytes, p + 16)
  | type => .throw (.unknownType type)

/-- One header: its name, its value, and the position behind it. -/
def parseHeader (p : ℕ) : Parse (JsString × JsString × ℕ) := do
  need buf p 1 "name length"
  let nameLen ← getUint buf p 1
  need buf (p + 1) nameLen "name"
  let name ← subarray buf (p + 1) nameLen
  need buf (p + 1 + nameLen) 1 "type"
  let type ← getUint buf (p + 1 + nameLen) 1
  let v ← parseValue buf (p + 2 + nameLen) type
  pure (Utf8.textOf name, v.1, v.2)

variable {buf}

variable {p n : ℕ} {label : String}

variable {α : Type}

theorem ok_of_needs_getUint {f : ℕ → Parse α} {a : α}
    (h : (need buf p n label >>= fun _ ↦ getUint buf p n >>= f).result = .ok a) :
    ∃ v, (f v).result = .ok a := by
  obtain ⟨-, -, h⟩ := Parse.ok_of_bind h
  obtain ⟨v, -, h⟩ := Parse.ok_of_bind h
  exact ⟨v, h⟩

theorem ok_of_needs_subarray {f : List UInt8 → Parse α} {a : α}
    (h : (need buf p n label >>= fun _ ↦ subarray buf p n >>= f).result = .ok a) :
    ∃ bytes, (f bytes).result = .ok a := by
  obtain ⟨-, -, h⟩ := Parse.ok_of_bind h
  obtain ⟨bytes, -, h⟩ := Parse.ok_of_bind h
  exact ⟨bytes, h⟩

theorem parseValue_next {type : ℕ} {v : JsString × ℕ} (h : (parseValue buf p type).result = .ok v) :
    p ≤ v.2 := by
  rw [parseValue.eq_def] at h
  split at h
  · obtain rfl := Except.ok.inj h
    exact le_rfl
  · obtain rfl := Except.ok.inj h
    exact le_rfl
  iterate 3
    · obtain ⟨n, h⟩ := ok_of_needs_getUint h
      obtain rfl := Except.ok.inj h
      exact Nat.le_add_right ..
  · obtain ⟨bytes, h⟩ := ok_of_needs_subarray h
    obtain rfl := Except.ok.inj h
    exact Nat.le_add_right ..
  iterate 2
    · obtain ⟨len, h⟩ := ok_of_needs_getUint h
      obtain ⟨bytes, h⟩ := ok_of_needs_subarray h
      obtain rfl := Except.ok.inj h
      exact (Nat.le_add_right ..).trans (Nat.le_add_right ..)
  · obtain ⟨bytes, h⟩ := ok_of_needs_subarray h
    simp only at h
    split at h
    · nomatch h
    · obtain rfl := Except.ok.inj h
      exact Nat.le_add_right ..
  · obtain ⟨bytes, h⟩ := ok_of_needs_subarray h
    obtain rfl := Except.ok.inj h
    exact Nat.le_add_right ..
  · nomatch h

variable {header : JsString × JsString × ℕ}

theorem parseHeader_next (h : (parseHeader buf p).result = .ok header) : p < header.2.2 := by
  obtain ⟨nameLen, h⟩ := ok_of_needs_getUint h
  obtain ⟨name, h⟩ := ok_of_needs_subarray h
  obtain ⟨type, h⟩ := ok_of_needs_getUint h
  obtain ⟨v, hv, h⟩ := Parse.ok_of_bind h
  obtain rfl := Except.ok.inj h
  have hnext := parseValue_next hv
  change p < v.2
  omega

variable (buf)

/-- The headers from a position on. -/
def parseHeadersFrom (out : Headers) (p : ℕ) : Parse Headers :=
  if p < buf.length then
    match _ : (parseHeader buf p).result with
    | .error error => ⟨(parseHeader buf p).reads, .error error⟩
    | .ok header =>
      let rest := parseHeadersFrom (setHeader out header.1 header.2.1) header.2.2
      ⟨(parseHeader buf p).reads ++ rest.reads, rest.result⟩
  else pure out
termination_by buf.length - p
decreasing_by
  have hnext := parseHeader_next ‹_›
  omega

def parseHeaders : Parse Headers := parseHeadersFrom buf OMap.empty 0

variable {buf}

variable {out : Headers}

theorem parseHeadersFrom_end (h : buf.length ≤ p) : parseHeadersFrom buf out p = pure out := by
  rw [parseHeadersFrom, if_neg (not_lt.mpr h)]

theorem parseHeadersFrom_ok (hp : p < buf.length) (h : (parseHeader buf p).result = .ok header) :
    parseHeadersFrom buf out p = ⟨(parseHeader buf p).reads ++
        (parseHeadersFrom buf (setHeader out header.1 header.2.1) header.2.2).reads,
      (parseHeadersFrom buf (setHeader out header.1 header.2.1) header.2.2).result⟩ := by
  rw [parseHeadersFrom, if_pos hp]
  split
  · rename_i hs; rw [h] at hs; nomatch hs
  · rename_i header' hs
    rw [h, Except.ok.injEq] at hs
    rw [hs]

theorem parseHeadersFrom_error (hp : p < buf.length) {error : EventStreamError}
    (h : (parseHeader buf p).result = .error error) :
    parseHeadersFrom buf out p = ⟨(parseHeader buf p).reads, .error error⟩ := by
  rw [parseHeadersFrom, if_pos hp]
  split
  · rename_i error' hs
    rw [h, Except.error.injEq] at hs
    rw [hs]
  · rename_i hs; rw [h] at hs; nomatch hs

/-! ## Inside the block -/

theorem inBlock_needs_getUint {f : ℕ → Parse α} (h : ∀ v, (f v).InBlock buf.length) :
    (need buf p n label >>= fun _ ↦ getUint buf p n >>= f).InBlock buf.length :=
  inBlock_need fun hin ↦ (inBlock_getUint hin).bind fun v _ ↦ h v

theorem inBlock_needs_subarray {f : List UInt8 → Parse α}
    (h : ∀ bytes, (f bytes).InBlock buf.length) :
    (need buf p n label >>= fun _ ↦ subarray buf p n >>= f).InBlock buf.length :=
  inBlock_need fun hin ↦ (inBlock_subarray hin).bind fun bytes _ ↦ h bytes

theorem parseValue_inBlock (p type : ℕ) : (parseValue buf p type).InBlock buf.length := by
  rw [parseValue.eq_def]
  split
  · exact Parse.inBlock_pure _ _
  · exact Parse.inBlock_pure _ _
  · exact inBlock_needs_getUint fun _ ↦ Parse.inBlock_pure _ _
  · exact inBlock_needs_getUint fun _ ↦ Parse.inBlock_pure _ _
  · exact inBlock_needs_getUint fun _ ↦ Parse.inBlock_pure _ _
  · exact inBlock_needs_subarray fun _ ↦ Parse.inBlock_pure _ _
  · exact inBlock_needs_getUint fun _ ↦ inBlock_needs_subarray fun _ ↦ Parse.inBlock_pure _ _
  · exact inBlock_needs_getUint fun _ ↦ inBlock_needs_subarray fun _ ↦ Parse.inBlock_pure _ _
  · refine inBlock_needs_subarray fun bytes ↦ ?_
    simp only
    split
    · exact Parse.inBlock_throw _ _
    · exact Parse.inBlock_pure _ _
  · exact inBlock_needs_subarray fun _ ↦ Parse.inBlock_pure _ _
  · exact Parse.inBlock_throw _ _

theorem parseHeader_inBlock (p : ℕ) : (parseHeader buf p).InBlock buf.length :=
  inBlock_needs_getUint fun _ ↦ inBlock_needs_subarray fun _ ↦ inBlock_needs_getUint fun type ↦
    (parseValue_inBlock _ type).bind fun _ _ ↦ Parse.inBlock_pure _ _

theorem parseHeadersFrom_inBlock (out : Headers) (p : ℕ) :
    (parseHeadersFrom buf out p).InBlock buf.length := by
  induction h : buf.length - p using Nat.strongRecOn generalizing out p with
  | _ n ih =>
    by_cases hp : p < buf.length
    · cases hres : (parseHeader buf p).result with
      | error error =>
        rw [parseHeadersFrom_error hp hres]
        exact parseHeader_inBlock p
      | ok header =>
        have hnext := parseHeader_next hres
        rw [parseHeadersFrom_ok hp hres]
        intro r hr
        rcases mem_append.mp hr with hr | hr
        · exact parseHeader_inBlock p r hr
        · exact ih (buf.length - header.2.2) (by omega) _ header.2.2 rfl r hr
    · rw [parseHeadersFrom_end (not_lt.mp hp)]
      exact Parse.inBlock_pure _ _

/-- **The parser never reads past its block**, whatever stands in it. -/
theorem parseHeaders_inBlock (buf : List UInt8) :
    (parseHeaders buf).InBlock buf.length := parseHeadersFrom_inBlock OMap.empty 0

end Block

/-! ## Blocks of string headers -/

/-- A header as the encoder writes it: always a string. -/
def headerBytes (header : JsString × JsString) : List UInt8 :=
  let nameBytes := Utf8.bytesOf header.1
  let valueBytes := Utf8.bytesOf header.2
  BigEndian.bytes 1 nameBytes.length ++ (nameBytes ++ (BigEndian.bytes 1 7 ++
    (BigEndian.bytes 2 valueBytes.length ++ valueBytes)))

/-- A name and a value that their length fields can hold. -/
structure HeaderFits (header : JsString × JsString) : Prop where
  name : (Utf8.bytesOf header.1).length ≤ 255
  value : (Utf8.bytesOf header.2).length ≤ 65535

instance (header : JsString × JsString) : Decidable (HeaderFits header) :=
  decidable_of_iff ((Utf8.bytesOf header.1).length ≤ 255 ∧ (Utf8.bytesOf header.2).length ≤ 65535)
    ⟨fun h ↦ ⟨h.1, h.2⟩, fun h ↦ ⟨h.name, h.value⟩⟩

/-- What decoding makes of a header's strings. -/
def seenHeader (out : Headers) (header : JsString × JsString) : Headers :=
  setHeader out (Utf8.textOf (Utf8.bytesOf header.1)) (Utf8.textOf (Utf8.bytesOf header.2))

section Written

variable {buf : List UInt8}

variable {p : ℕ}

variable {piece : List UInt8}

theorem subarray_stands (h : Stands buf piece p) :
    (subarray buf p piece.length).result = .ok piece := by
  rw [subarray, h.slice]

variable {n width : ℕ}

theorem getUint_stands (h : Stands buf (BigEndian.bytes width n) p) (hn : n < 256 ^ width) :
    (getUint buf p width).result = .ok n := by
  have hslice := h.slice
  rw [length_bytes] at hslice
  rw [getUint, hslice, value_bytes hn]

theorem need_stands (h : Stands buf piece p) (label : String) :
    (need buf p piece.length label).result = .ok () := need_ok h.bound

theorem need_bytes (h : Stands buf (BigEndian.bytes width n) p) (label : String) :
    (need buf p width label).result = .ok () := by
  have hneed := need_stands h label
  rw [length_bytes] at hneed
  exact hneed

theorem parseHeader_headerBytes {header : JsString × JsString}
    (h : Stands buf (headerBytes header) p) (hfits : HeaderFits header) :
    (parseHeader buf p).result = .ok (Utf8.textOf (Utf8.bytesOf header.1),
      Utf8.textOf (Utf8.bytesOf header.2), p + (headerBytes header).length) := by
  have hlen := h.left
  have hrest := h.right
  rw [length_bytes] at hrest
  have hname := hrest.left
  have hrest := hrest.right
  have htype := hrest.left
  have hrest := hrest.right
  rw [length_bytes] at hrest
  have hsize := hrest.left
  have hvalue := hrest.right
  rw [length_bytes] at hvalue
  have hnext : p + (headerBytes header).length =
      p + 1 + (Utf8.bytesOf header.1).length + 1 + 2 + (Utf8.bytesOf header.2).length := by
    simp only [headerBytes, length_append, length_bytes]
    omega
  have hn : (Utf8.bytesOf header.1).length < 256 ^ 1 := by
    have := hfits.name
    omega
  have hv : (Utf8.bytesOf header.2).length < 256 ^ 2 := by
    have := hfits.value
    omega
  rw [parseHeader, Parse.result_bind_ok (need_bytes hlen _),
    Parse.result_bind_ok (getUint_stands hlen hn), Parse.result_bind_ok (need_stands hname _),
    Parse.result_bind_ok (subarray_stands hname), Parse.result_bind_ok (need_bytes htype _),
    Parse.result_bind_ok (getUint_stands htype (by norm_num))]
  have hparsed : (parseValue buf (p + 1 + (Utf8.bytesOf header.1).length + 1) 7).result =
      .ok (Utf8.textOf (Utf8.bytesOf header.2), p + (headerBytes header).length) := by
    rw [parseValue, Parse.result_bind_ok (need_bytes hsize _),
      Parse.result_bind_ok (getUint_stands hsize hv), Parse.result_bind_ok (need_stands hvalue _),
      Parse.result_bind_ok (subarray_stands hvalue), hnext]
    rfl
  have hpos : p + 2 + (Utf8.bytesOf header.1).length =
      p + 1 + (Utf8.bytesOf header.1).length + 1 := by omega
  rw [hpos, Parse.result_bind_ok hparsed]
  rfl

theorem parseHeadersFrom_headerBytes (headers : List (JsString × JsString))
    (hfits : ∀ header ∈ headers, HeaderFits header) (before : List UInt8) (out : Headers) :
    (parseHeadersFrom (before ++ headers.flatMap headerBytes) out before.length).result =
      .ok (headers.foldl seenHeader out) := by
  induction headers generalizing before out with
  | nil =>
    rw [parseHeadersFrom_end (by simp)]
    rfl
  | cons header headers ih =>
    have hstands : Stands (before ++ (header :: headers).flatMap headerBytes) (headerBytes header)
        before.length := ⟨before, headers.flatMap headerBytes, by rw [flatMap_cons], rfl⟩
    have hparsed := parseHeader_headerBytes hstands (hfits header (mem_cons_self ..))
    have hbound := hstands.bound
    have hpos : 0 < (headerBytes header).length := by
      simp only [headerBytes, length_append, length_bytes]
      omega
    rw [parseHeadersFrom_ok (by omega) hparsed]
    have hrest := ih (fun h hh ↦ hfits h (mem_cons_of_mem _ hh))
      (before ++ headerBytes header) (seenHeader out header)
    rw [append_assoc, ← flatMap_cons, length_append] at hrest
    exact hrest

/-- **A written block is read back**, as the strings that decoding makes of it. -/
theorem parseHeaders_headerBytes (headers : List (JsString × JsString))
    (hfits : ∀ header ∈ headers, HeaderFits header) :
    (parseHeaders (headers.flatMap headerBytes)).result =
      .ok (headers.foldl seenHeader OMap.empty) := parseHeadersFrom_headerBytes headers hfits [] _

end Written

end EventStream
