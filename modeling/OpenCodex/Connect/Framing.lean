import OpenCodex.Data.Act
import OpenCodex.Data.Bytes

/-!
# Connect frames

A Connect stream is a sequence of frames: a byte of flags, the length of the payload in four bytes,
and the payload.  `encodeConnectFrame` writes one.  Two functions take the complete frames off the
front of what has arrived: `decodeAvailableConnectFrames` copies them and hands back a copy of what
is left, and asks for every copy first; `consumeConnectFrames` hands out views where a payload is
large, and says how many bytes it has gone through.

The budget for copies is a `Reserver`, which may grant a reservation, decline to keep one, or refuse;
the reservations of a call are what it adds to the `Ledger`.
-/

set_option autoImplicit false

namespace Connect

/-! ## Constants and errors -/

def connectFrameHeaderBytes : ℕ := 5

def connectFlagCompressed : UInt8 := 0x01

def connectFlagEndStream : UInt8 := 0x02

def maxConnectFramePayloadBytes : ℕ := 0xffffffff

inductive ConnectFrameErrorCode where
  | invalidOffset
  | invalidFlags
  | payloadTooLarge
  | frameIncomplete
  deriving DecidableEq

structure ConnectFrameError where
  code : ConnectFrameErrorCode
  message : String
  deriving DecidableEq

def payloadTooLarge (length : ℕ) : ConnectFrameError :=
  ⟨.payloadTooLarge, "Connect frame payload too large: " ++ toString length⟩

def invalidFlags (flags : ℤ) : ConnectFrameError :=
  ⟨.invalidFlags, "Connect frame flags must be a byte: " ++ toString flags⟩

/-! ## Frames -/

structure ConnectFrame where
  flags : UInt8
  payload : List UInt8
  compressed : Bool
  endStream : Bool
  deriving DecidableEq

def isConnectFrameCompressed (flags : UInt8) : Bool :=
  flags &&& connectFlagCompressed == connectFlagCompressed

def isConnectFrameEndStream (flags : UInt8) : Bool :=
  flags &&& connectFlagEndStream == connectFlagEndStream

/-- A frame of these flags and this payload. -/
def frameOf (flags : UInt8) (payload : List UInt8) : ConnectFrame :=
  ⟨flags, payload, isConnectFrameCompressed flags, isConnectFrameEndStream flags⟩

/-- The options of an encoder. -/
structure EncodeOptions where
  flags : Option ℤ
  compressed : Bool
  endStream : Bool
  deriving DecidableEq

/-- The flags a frame is written with, from a byte. -/
def flagsWith (options : EncodeOptions) (flags : UInt8) : UInt8 :=
  let flags := if options.compressed then flags ||| connectFlagCompressed else flags
  if options.endStream then flags ||| connectFlagEndStream else flags

/-- Write a frame. -/
def encodeConnectFrame (payload : List UInt8) (options : EncodeOptions) :
    Except ConnectFrameError (List UInt8) :=
  if maxConnectFramePayloadBytes < payload.length then .error (payloadTooLarge payload.length)
  else
    let flags := options.flags.getD 0
    if flags < 0 ∨ 0xff < flags then .error (invalidFlags flags)
    else .ok (flagsWith options (UInt8.ofNat flags.toNat) ::
      (BigEndian.bytes 4 payload.length ++ payload))

/-! ## Looking at a frame -/

/-- Where a complete frame stands. -/
structure InspectedConnectFrame where
  flags : UInt8
  length : ℕ
  payloadStart : ℕ
  readBytes : ℕ

/-- The length that the header at a position gives. -/
def lengthAt (input : List UInt8) (offset : ℕ) : ℕ := BigEndian.value (input.slice (offset + 1) 4)

/-- The frame at a position, if all of it is there. -/
def inspectConnectFrame (input : List UInt8) (offset maxPayloadBytes : ℕ) :
    Except ConnectFrameError (Option InspectedConnectFrame) :=
  if input.length - offset < connectFrameHeaderBytes then .ok none
  else
    let flags := input.getD offset 0
    let length := lengthAt input offset
    if maxPayloadBytes < length then .error (payloadTooLarge length)
    else
      let readBytes := connectFrameHeaderBytes + length
      if input.length - offset < readBytes then .ok none
      else .ok (some ⟨flags, length, offset + connectFrameHeaderBytes, readBytes⟩)

/-- The frame that was found. -/
def InspectedConnectFrame.frame (input : List UInt8) (i : InspectedConnectFrame) : ConnectFrame :=
  frameOf i.flags (input.slice i.payloadStart i.length)

/-- Fewer frames were planned than there are slots; `none` is no bound. -/
def hasSlot (availableFrameSlots : Option ℕ) (planned : ℕ) : Bool :=
  availableFrameSlots.all fun slots ↦ planned < slots

/-! ## Consuming -/

/-- The frames a call can go through, and where it has got to; more turns than there are bytes are
enough. -/
def planFrames (input : List UInt8) (maxPayloadBytes : ℕ) (availableFrameSlots : Option ℕ) :
    ℕ → List InspectedConnectFrame → ℕ → Except ConnectFrameError (List InspectedConnectFrame × ℕ)
  | 0, planned, offset => .ok (planned, offset)
  | turns + 1, planned, offset =>
    if offset < input.length ∧ hasSlot availableFrameSlots planned.length then
      match inspectConnectFrame input offset maxPayloadBytes with
      | .error e => .error e
      | .ok none => .ok (planned, offset)
      | .ok (some inspected) =>
        planFrames input maxPayloadBytes availableFrameSlots turns (planned ++ [inspected])
          (offset + inspected.readBytes)
    else .ok (planned, offset)

structure ConsumedConnectFrames where
  frames : List ConnectFrame
  consumedBytes : ℕ
  deriving DecidableEq

/-- Take complete frames off the front.  A payload is copied or viewed; what it holds is the same. -/
def consumeConnectFrames (input : List UInt8) (maxPayloadBytes : ℕ)
    (availableFrameSlots : Option ℕ) : Except ConnectFrameError ConsumedConnectFrames :=
  (planFrames input maxPayloadBytes availableFrameSlots (input.length + 1) [] 0).map fun plan ↦
    ⟨plan.1.map (·.frame input), plan.2⟩

/-! ## Decoding with reservations -/

inductive ReservationState where
  | reserved
  | committed
  | released
  deriving DecidableEq

/-- A reservation that was taken. -/
structure Reservation where
  bytes : ℕ
  state : ReservationState
  deriving DecidableEq

/-- The reservations in the order they were taken. -/
abbrev Ledger := List Reservation

/-- What becomes of a request for a reservation. -/
inductive Grant where
  | granted
  /-- There is nothing to keep. -/
  | absent
  | refused
  deriving DecidableEq

/-- The answers to requests, by how many reservations there are, and of how many bytes. -/
abbrev Reserver := ℕ → ℕ → Grant

/-- How a call fails. -/
inductive Thrown where
  /-- A reservation was refused. -/
  | refused
  | frame (e : ConnectFrameError)
  deriving DecidableEq

/-- A frame of a batch, and its reservation. -/
structure PlannedConnectFrame where
  inspected : InspectedConnectFrame
  reservation : Option ℕ

/-- The reservations there are, and the variables of a call. -/
structure Batch where
  ledger : Ledger
  planned : List PlannedConnectFrame
  remainderReservation : Option ℕ

abbrev Code := Act Batch Thrown

/-- Ask for a reservation; its number, where there is one. -/
def reservePayloadCopy (reserver : Reserver) (bytes : ℕ) : Code (Option ℕ) := do
  let b ← get
  match reserver b.ledger.length bytes with
  | .refused => throw .refused
  | .absent => pure none
  | .granted =>
    modify fun b ↦ { b with ledger := b.ledger ++ [⟨bytes, .reserved⟩] }
    pure (some b.ledger.length)

/-- A reservation is settled, once. -/
def Reservation.settle (state : ReservationState) (r : Reservation) : Reservation :=
  if r.state = .reserved then { r with state := state } else r

/-- Settle a reservation, if there is one. -/
def settle (state : ReservationState) (reservation : Option ℕ) : Code Unit :=
  Act.forSome reservation fun i ↦
    modify fun b ↦ { b with ledger := b.ledger.modify i (Reservation.settle state) }

/-- Settle the reservations of the call. -/
def settleAll (state : ReservationState) : Code Unit := do
  let b ← get
  b.planned.forM fun entry ↦ settle state entry.reservation
  settle state b.remainderReservation

/-- The payload bytes of what is left over; a turn for every byte is enough. -/
def bufferedPayloadBytes (input : List UInt8) : ℕ → ℕ → ℕ → ℕ
  | 0, _, payloadBytes => payloadBytes
  | turns + 1, offset, payloadBytes =>
    if connectFrameHeaderBytes ≤ input.length - offset then
      let length := lengthAt input offset
      let available := min length (input.length - offset - connectFrameHeaderBytes)
      if available < length then payloadBytes + available
      else bufferedPayloadBytes input turns (offset + (connectFrameHeaderBytes + length))
        (payloadBytes + available)
    else payloadBytes

structure DecodedConnectFrames where
  frames : List ConnectFrame
  remainder : List UInt8
  deriving DecidableEq

/-- Plan the frames of a batch, and reserve their copies; where the batch ends. -/
def planCopies (reserver : Reserver) (input : List UInt8) (maxPayloadBytes : ℕ)
    (availableFrameSlots : Option ℕ) : ℕ → ℕ → Code ℕ
  | 0, offset => pure offset
  | turns + 1, offset => do
    let b ← get
    if offset < input.length ∧ hasSlot availableFrameSlots b.planned.length then
      match inspectConnectFrame input offset maxPayloadBytes with
      | .error e => throw (.frame e)
      | .ok none => pure offset
      | .ok (some inspected) => do
        let reservation ← reservePayloadCopy reserver inspected.length
        modify fun b ↦ { b with planned := b.planned ++ [⟨inspected, reservation⟩] }
        planCopies reserver input maxPayloadBytes availableFrameSlots turns
          (offset + inspected.readBytes)
    else pure offset

/-- Make the copies of a batch, once all of them are reserved. -/
def decodeBatch (reserver : Reserver) (input : List UInt8) (maxPayloadBytes : ℕ)
    (availableFrameSlots : Option ℕ) : Code DecodedConnectFrames := do
  let offset ← planCopies reserver input maxPayloadBytes availableFrameSlots (input.length + 1) 0
  let remainderBytes :=
    if offset = input.length then 0 else bufferedPayloadBytes input input.length offset 0
  let reservation ← reservePayloadCopy reserver remainderBytes
  modify fun b ↦ { b with remainderReservation := reservation }
  let b ← get
  settleAll .committed
  pure ⟨b.planned.map fun entry ↦ entry.inspected.frame input, input.drop offset⟩

/-- A batch that fails gives its reservations back. -/
def rollingBack {α : Type} (batch : Code α) : Code α :=
  tryCatch batch fun e ↦ do
    settleAll .released
    throw e

/-- Take complete frames off the front, with a reservation for every copy. -/
def decodeAvailableConnectFrames (reserver : Reserver) (input : List UInt8) (maxPayloadBytes : ℕ)
    (availableFrameSlots : Option ℕ) (ledger : Ledger) :
    Except Thrown DecodedConnectFrames × Ledger :=
  let r := rollingBack (decodeBatch reserver input maxPayloadBytes availableFrameSlots)
    ⟨ledger, [], none⟩
  (r.1, r.2.ledger)

/-- A caller without a budget. -/
def unreserved : Reserver := fun _ _ ↦ .absent

end Connect
