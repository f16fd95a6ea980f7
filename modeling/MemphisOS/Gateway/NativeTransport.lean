import MemphisOS.Bridge.Envelope
import MemphisOS.Ecma.Documents
import MemphisOS.Ecma.JsonLines
import MemphisOS.Ecma.JsonPrefixes
import MemphisOS.Ecma.StringMethods
import MemphisOS.Ecma.Transparency
import MemphisOS.Systems.Transition

/-!
# The native transport

A client writes one request to a socket. The server parses all it has received after each chunk of
bytes, and the first request that parses is run and answered. Between the two the bytes are cut into
chunks as the network pleases.
-/

namespace Ecma

/-! ## Whole characters in chunks -/

end Ecma

namespace MemphisOS.Gateways

open Ecma Bridge

/-! ## Requests -/

structure AskResult where
  output : JsString
  providerUsed : JsString
  timingMs : JsNumber

/-- The checks of `invokeNativeMcpAsk`: the parameters it hands to the runner, unless it throws. -/
def askParams (request : Plain) : Option Plain :=
  if stringProperty request "jsonrpc" ≠ some (js "2.0") then none
  else if stringProperty request "method" ≠ some (js "memphis.ask") then none
  else
    match property request "params" with
    | none => none
    | some params =>
      match property params "input" with
      | some (.str input) => if input.trim = [] then none else some params
      | _ => none

/-- The response of `invokeNativeMcpAsk` as it is written. -/
def responseText (request : Plain) (result : AskResult) : Text :=
  jsonText [] (.obj ((js "jsonrpc", .str (js "2.0")) ::
    ((property request "id").map fun id => (js "id", id)).toList ++
    [(js "result", .obj [(js "output", .str result.output),
      (js "providerUsed", .str result.providerUsed), (js "timingMs", .num result.timingMs)])]))

/-- The answer to an input that ends within a text. -/
def parseErrorText : Text :=
  jsonText [] (.obj [(js "jsonrpc", .str (js "2.0")), (js "id", .null),
    (js "error", .obj [(js "code", .num (.ofRat (-32700) false)),
      (js "message", .str (js "parse_error"))])])

/-! ## A connection -/

/-- The two ends of a connection and the bytes between them. -/
structure Connection where
  toServer : List UInt8
  inputEnded : Bool
  /-- What the server has received. -/
  buffer : Text
  /-- The requests for which the runner has been called. -/
  calls : List Plain
  /-- Those whose calls have not settled. -/
  running : List Plain
  written : List Text
  outputEnded : Bool
  toClient : List UInt8
  /-- What the client has received. -/
  data : Text
  resolved : Option Text

inductive TransportStep where
  /-- The server receives a chunk. -/
  | deliver (chunk : List UInt8)
  /-- The client ends its side, or is gone before all has arrived. -/
  | endInput
  /-- A call of the runner returns, or it throws. -/
  | settle (call : ℕ) (result : Option AskResult)
  /-- The client receives a chunk. -/
  | receive (chunk : List UInt8)
  /-- The client sees the end of the answer. -/
  | finish

namespace Connection

/-- A client has connected and written its text. -/
def connect (text : Text) : Connection where
  toServer := encodeUtf8 text
  inputEnded := false
  buffer := []
  calls := []
  running := []
  written := []
  outputEnded := false
  toClient := []
  data := []
  resolved := none

variable (self : Connection)

/-- `socket.write`, and `socket.end` after it. Nothing is written after the end. -/
def answer (text : Text) : Connection :=
  if self.outputEnded then self
  else { self with
    written := self.written ++ [text]
    toClient := self.toClient ++ encodeUtf8 text
    outputEnded := true }

/-- The handler of `data` for the buffer it has extended. -/
def handle (buffer : Text) : Connection :=
  match parseJson buffer with
  | some request =>
    if (askParams request).isSome then
      { self with
        buffer := buffer, calls := self.calls ++ [request], running := self.running ++ [request] }
    else { self with buffer := buffer }
  | none => { self with buffer := buffer }

/-- A step where it can be taken. The end of the input is the end of the output as well, after the
handler of `end` has run. -/
def next : TransportStep → Option Connection
  | .deliver chunk =>
    if self.inputEnded = false ∧ chunk ≠ [] ∧ chunk <+: self.toServer then
      some ({ self with toServer := self.toServer.drop chunk.length }.handle
        (self.buffer ++ decodeUtf8 chunk))
    else none
  | .endInput =>
    if self.inputEnded then none
    else
      let ended := { self with inputEnded := true, toServer := [] }
      if trim self.buffer ≠ [] ∧ parseJson self.buffer = none then
        some (ended.answer parseErrorText)
      else some { ended with outputEnded := true }
  | .settle call result =>
    match self.running[call]? with
    | none => none
    | some request =>
      let settled := { self with running := self.running.eraseIdx call }
      match result with
      | some result => some (settled.answer (responseText request result))
      | none => some settled
  | .receive chunk =>
    if chunk ≠ [] ∧ chunk <+: self.toClient then
      some { self with
        toClient := self.toClient.drop chunk.length, data := self.data ++ decodeUtf8 chunk }
    else none
  | .finish =>
    if self.outputEnded ∧ self.toClient = [] ∧ self.resolved = none then
      some { self with resolved := some self.data }
    else none

end Connection

/-- No chunk ends within a character. -/
def TransportStep.WholeCharacters : TransportStep → Prop
  | .deliver chunk => ∃ t, chunk = encodeUtf8 t
  | .receive chunk => ∃ t, chunk = encodeUtf8 t
  | _ => True

/-- The connection of a client that writes a text. -/
def transport (text : Text) : TransitionSystem Connection TransportStep where
  init s := s = .connect text
  step s step t := step.WholeCharacters ∧ s.next step = some t

/-! ## The invariant -/

variable {request : List (JsString × Plain)} {s t : Connection} {step : TransportStep}

/-- A connection of a client that has written a request. -/
structure Connection.Serves (request : List (JsString × Plain)) (s : Connection) : Prop where
  /-- Some part of the text has arrived, and the rest is on its way unless it was lost. -/
  received : ∃ rest, jsonText [] (.obj request) = s.buffer ++ rest ∧
    (s.inputEnded = false → s.toServer = encodeUtf8 rest)
  calls : s.calls = if s.buffer = jsonText [] (.obj request) ∧
    (askParams (.obj request)).isSome then [.obj request] else []
  running : s.running.Sublist s.calls
  written : s.written = [] ∨ s.outputEnded = true ∧
    ((∃ result, s.written = [responseText (.obj request) result] ∧ s.calls = [.obj request]) ∨
      s.inputEnded = true ∧ s.written = [parseErrorText] ∧ s.calls = [])
  ended : s.outputEnded = true → s.written = [] → s.inputEnded = true
  sent : ∃ rest, s.written.flatten = s.data ++ rest ∧ s.toClient = encodeUtf8 rest
  resolved : ∀ answer ∈ s.resolved, s.outputEnded = true ∧ answer = s.written.flatten

end MemphisOS.Gateways
