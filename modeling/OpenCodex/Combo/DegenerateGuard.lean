import OpenCodex.Combo.LaneLedger
import OpenCodex.Data.EventSource
import OpenCodex.Sse.Payload

/-!
# Cutting a stream that repeats itself

A guard relays the chunks of an answer and shows each of them, once it is relayed, to a monitor.
When the monitor finds that the answer repeats itself the guard ends the stream with a frame of its
own: a `response.failed` and `[DONE]`.  Combo streams and native ones have the same guard, with
different messages in the frame.

The chunk that gives the answer away is relayed whole, and nobody looks at where in it the cut
falls.  What the client makes of it depends on the state in which the frame finds its reader
(`fragment`): data of an event that is not complete is dispatched with the frame's first empty line,
and a terminal that was in the chunk has been read already.  Otherwise the client sees the events it
was sent, and the end (`cut_well_formed_iff`).
-/

set_option autoImplicit false

namespace DegenerateGuard

open Bridge (truthy toLowerCase includes)
open Sse (SseEnv Inspection InspectorHandlers SseScanner scanFrame stringOf typeOf)
open LaneLedger (signatureOf callArgumentCapChars)

/-! ## The monitor -/

def comboDegenerateTextBudgetBytes : ℕ := 4096
def comboDegenerateWatchBudgetBytes : ℕ := 262144
def callSignatureRepeats : ℕ := 3
def signatureWindow : ℕ := 8

/-- What the monitor does not compute itself: reading bytes, and the verdicts on a window of text,
which measure how much of it repeats and how well it is compressed. -/
structure MonitorEnv where
  sse : SseEnv
  repetitionVerdict : JsString → Option JsString
  reasoningRepetitionVerdict : JsString → Option JsString

/-- A window of text; once it is settled nothing more is added. -/
structure Window where
  text : JsString
  bytes : ℕ
  settled : Bool

/-- What was seen of a response. -/
structure Watch where
  textWindow : Window
  reasoningWindow : Window
  recentSignatures : List JsString
  callSignatures : OMap JsString JsString
  pendingCallKey : Option JsString
  /-- The verdict that was reported. -/
  verdict : Option JsString

def Watch.start : Watch := ⟨⟨[], 0, false⟩, ⟨[], 0, false⟩, [], .empty, none, none⟩

def Watch.fire (watch : Watch) (detail : JsString) : Watch :=
  if watch.verdict.isSome then watch else { watch with verdict := some detail }

/-- A delta goes into a window, with the verdict on it.  The delta that ends the window still goes
in, unless the other window is settled as well. -/
def noteDelta (judge : JsString → Option JsString) (window : Window) (otherSettled : Bool)
    (delta : JsString) : Window × Option JsString :=
  if delta = [] ∨ window.settled = true then (window, none)
  else
    let bytes := window.bytes + (Utf8.bytesOf delta).length
    let settled := decide (comboDegenerateTextBudgetBytes < bytes)
    if settled && otherSettled then ({ window with settled := true }, none)
    else
      let text := window.text ++ delta
      (⟨text, bytes, settled⟩, judge text)

def Watch.noteText (E : MonitorEnv) (watch : Watch) (delta : Option Json) : Watch :=
  let (window, verdict) := noteDelta E.repetitionVerdict watch.textWindow
    watch.reasoningWindow.settled ((stringOf delta).getD [])
  let watch := { watch with textWindow := window }
  (truthy verdict).elim watch watch.fire

def Watch.noteReasoning (E : MonitorEnv) (watch : Watch) (delta : Option Json) : Watch :=
  let (window, verdict) := noteDelta E.reasoningRepetitionVerdict watch.reasoningWindow
    watch.textWindow.settled ((stringOf delta).getD [])
  let watch := { watch with reasoningWindow := window }
  (truthy verdict).elim watch watch.fire

def repeatedCallDetail (repeats : ℕ) : JsString :=
  js "the same tool call repeated " ++ Json.decimal repeats ++ js " times in one response"

/-- The latest signatures; one more, and only so many are kept. -/
def Watch.noteCallSignature (watch : Watch) (signature : JsString) : Watch :=
  if signature = [] then watch
  else
    let signatures := watch.recentSignatures ++ [signature]
    let signatures := if signatureWindow < signatures.length then signatures.drop 1 else signatures
    let watch := { watch with recentSignatures := signatures }
    let repeats := (signatures.reverse.takeWhile (· == signature)).length
    if callSignatureRepeats ≤ repeats then watch.fire (repeatedCallDetail repeats) else watch

/-- The item of an event, if it is a tool call. -/
def toolCallItem (payload : Json) : Option Json :=
  (Sse.asJsonRecord (payload.field? (js "item"))).filter fun item ↦
    [js "function_call", js "custom_tool_call"].contains
      ((stringOf (item.field? (js "type"))).getD [])

/-- `id`, or else `call_id`. -/
def itemKey (item : Json) : Option JsString :=
  (stringOf (item.field? (js "id"))).or (stringOf (item.field? (js "call_id")))

def Watch.observe (E : MonitorEnv) (payload : Json) (watch : Watch) : Watch :=
  if watch.verdict.isSome ∨ payload.members?.isNone then watch
  else
    let type := (typeOf (some payload)).getD []
    if type = js "response.output_text.delta" then watch.noteText E (payload.field? (js "delta"))
    else if type = js "response.reasoning_summary_text.delta" ∨
        type = js "response.reasoning_text.delta" then
      watch.noteReasoning E (payload.field? (js "delta"))
    else if type = js "response.output_item.added" then
      match toolCallItem payload with
      | none => watch
      | some item =>
        match truthy (itemKey item) with
        | none => watch
        | some key =>
          { watch with
            pendingCallKey := some key
            callSignatures := watch.callSignatures.set key (signatureOf item []) }
    else if type = js "response.function_call_arguments.delta" then
      match truthy ((stringOf (payload.field? (js "item_id"))).or watch.pendingCallKey) with
      | none => watch
      | some itemId =>
        let delta := (stringOf (payload.field? (js "delta"))).getD []
        let current := (watch.callSignatures.get? itemId).getD []
        if current.length < callArgumentCapChars then
          { watch with
            callSignatures := watch.callSignatures.set itemId
              ((current ++ delta).take callArgumentCapChars) }
        else watch
    else if type = js "response.output_item.done" then
      match toolCallItem payload with
      | none => watch
      | some item =>
        let carried := ((truthy ((itemKey item).or watch.pendingCallKey)).bind
          watch.callSignatures.get?).getD []
        watch.noteCallSignature (signatureOf item carried)
    else watch

structure DegenerateStreamMonitor where
  inspector : SseScanner (Inspection Watch)
  watchedBytes : ℕ
  disposed : Bool

namespace DegenerateStreamMonitor

def start : DegenerateStreamMonitor := ⟨SseScanner.new ⟨false, false, .start⟩, 0, false⟩

def triggered (monitor : DegenerateStreamMonitor) : Bool :=
  monitor.inspector.seen.caller.verdict.isSome

def handlers (E : MonitorEnv) : InspectorHandlers Watch where
  onParsedPayload := Watch.observe E
  onOpaquePayload _ watch := watch
  onTerminal _ watch := watch

def feed (E : MonitorEnv) (monitor : DegenerateStreamMonitor) (chunk : Sse.Bytes) :
    DegenerateStreamMonitor :=
  if monitor.disposed || monitor.triggered then monitor
  else
    let watchedBytes := monitor.watchedBytes + chunk.length
    if comboDegenerateWatchBudgetBytes < watchedBytes then
      { monitor with watchedBytes, disposed := true }
    else { monitor with
      watchedBytes
      inspector := SseScanner.feed (scanFrame E.sse (handlers E)) chunk monitor.inspector }

end DegenerateStreamMonitor

/-! ## The guard -/

/-- The error of the last event. -/
def terminalError (message : JsString) : Json.Doc :=
  .obj [(js "type", .str (js "upstream_error")), (js "code", .str (js "degenerate_output")),
    (js "message", .str message)]

def terminalPayload (message : JsString) : JsString :=
  (Json.Doc.obj [(js "type", .str (js "response.failed")),
    (js "response", .obj [(js "status", .str (js "failed")), (js "error", terminalError message),
      (js "last_error", terminalError message)])]).render

def terminalText (message : JsString) : JsString :=
  js "event: response.failed\n\ndata: " ++ terminalPayload message ++ js "\n\ndata: [DONE]\n\n"

def terminalFrame (message : JsString) : Sse.Bytes := Utf8.bytesOf (terminalText message)

def comboMessage : JsString :=
  js "Upstream produced degenerate repetitive output; the combo demoted this channel and will " ++
    js "continue on the next one. Retry the turn to fail over immediately."

def nativeMessage (label : JsString) : JsString :=
  js "The channel started repeating itself; this proxy cut the stream so the turn can be" ++
    js " retried instead of paying for the loop" ++
    (if label = [] then [] else js " (" ++ label ++ js ")") ++ js "."

/-- What of a response the guard looks at. -/
structure Response where
  contentType : Option JsString
  body : Option (List Sse.Bytes)

def guardableComboStream (response : Response) : Bool :=
  let contentType := (response.contentType.map toLowerCase).getD []
  response.body.isSome && (contentType == [] || includes contentType (js "text/event-stream"))

/-- The chunks that are relayed, and whether the last of them gave the answer away. -/
def relay (E : MonitorEnv) (monitor : DegenerateStreamMonitor) :
    List Sse.Bytes → List Sse.Bytes × Bool
  | [] => ([], false)
  | chunk :: chunks =>
    let monitor := monitor.feed E chunk
    if monitor.triggered then ([chunk], true)
    else
      let later := relay E monitor chunks
      (chunk :: later.1, later.2)

/-- The guarded stream. -/
def guardStream (E : MonitorEnv) (frame : Sse.Bytes) (chunks : List Sse.Bytes) : List Sse.Bytes :=
  let relayed := relay E .start chunks
  relayed.1 ++ if relayed.2 then [frame] else []

def guardComboDegenerateOutput (E : MonitorEnv) (enabled : Bool) (response : Response) : Response :=
  if !enabled || !guardableComboStream response then response
  else { response with
    body := response.body.map (guardStream E (terminalFrame comboMessage)) }

def guardNativeDegenerateOutput (E : MonitorEnv) (label : JsString) (response : Response) :
    Response :=
  if !guardableComboStream response then response
  else { response with
    body := response.body.map (guardStream E (terminalFrame (nativeMessage label))) }

end DegenerateGuard
