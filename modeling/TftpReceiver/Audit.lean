import TftpReceiver.Json.Reader
import TftpReceiver.SipHash
import TftpReceiver.SocketAddress
import TftpReceiver.Text.Utf8

/-! The audit trail: what happened that bears on security, one JSON object per event. -/

namespace TftpReceiver.Audit

inductive Severity
  | info
  | warn
  | error
  deriving DecidableEq, Repr, Inhabited

def Severity.name : Severity → String
  | info => "info"
  | warn => "warn"
  | error => "error"

/-- What all events have. `correlation` ties together the events of one transfer. -/
structure Stamp where
  timestamp : String
  hostname : String
  service : String
  severity : String
  correlation : Option String
  deriving DecidableEq, Repr, Inhabited

/-- What happened. Sizes are in bytes, intervals and durations in milliseconds, and
`rate` is in bytes per second. -/
inductive Detail
  | serverStarted (address root : String)
  | writeRequest (client filename mode : String) (options : Json)
  | requestRejected (client : String) (filename : Option String) (code : Nat) (reason : String)
  | writeStarted (client filename : String) (blockSize interval declaredSize : Nat)
  | writeCompleted (client filename : String) (size blocks duration rate : Nat)
  | writeFailed (client filename error : String) (blocks : Nat)
  | protocolViolation (client violation : String)
  | pathTraversalAttempt (client path violation : String)
  | configurationLoaded (file : String)
  | configurationError (file error : String)
  deriving DecidableEq, Repr, Inhabited

structure Event where
  stamp : Stamp
  detail : Detail
  deriving DecidableEq, Repr, Inhabited

namespace Detail

def kind : Detail → String
  | serverStarted .. => "server_started"
  | writeRequest .. => "write_request"
  | requestRejected .. => "request_rejected"
  | writeStarted .. => "write_started"
  | writeCompleted .. => "write_completed"
  | writeFailed .. => "write_failed"
  | protocolViolation .. => "protocol_violation"
  | pathTraversalAttempt .. => "path_traversal_attempt"
  | configurationLoaded .. => "configuration_loaded"
  | configurationError .. => "configuration_error"

def severity : Detail → Severity
  | serverStarted .. | writeRequest .. | writeStarted .. | writeCompleted ..
  | configurationLoaded .. => .info
  | requestRejected .. => .warn
  | writeFailed .. | protocolViolation .. | pathTraversalAttempt ..
  | configurationError .. => .error

/-- Events from an acceptable request to the end of its transfer. -/
def isOfTransfer : Detail → Bool
  | writeRequest .. | writeStarted .. | writeCompleted .. | writeFailed .. => true
  | _ => false

def number (n : Nat) : Json := .number (.integer n)

def members : Detail → List (String × Json)
  | serverStarted address root => [("bind_addr", .string address), ("root_dir", .string root)]
  | writeRequest client filename mode options =>
    [("client_addr", .string client), ("filename", .string filename), ("mode", .string mode),
      ("options", options)]
  | requestRejected client filename code reason =>
    [("client_addr", .string client), ("filename", filename.elim .null .string),
      ("error_code", number code), ("reason", .string reason)]
  | writeStarted client filename blockSize interval declaredSize =>
    [("client_addr", .string client), ("filename", .string filename),
      ("block_size", number blockSize), ("timeout_ms", number interval),
      ("declared_size", number declaredSize)]
  | writeCompleted client filename size blocks duration rate =>
    [("client_addr", .string client), ("filename", .string filename),
      ("bytes_received", number size), ("blocks_received", number blocks),
      ("duration_ms", number duration), ("throughput_bps", number rate)]
  | writeFailed client filename error blocks =>
    [("client_addr", .string client), ("filename", .string filename), ("error", .string error),
      ("blocks_received", number blocks)]
  | protocolViolation client violation =>
    [("client_addr", .string client), ("violation", .string violation)]
  | pathTraversalAttempt client path violation =>
    [("client_addr", .string client), ("requested_path", .string path),
      ("violation_type", .string violation)]
  | configurationLoaded file => [("config_file", .string file)]
  | configurationError file error => [("config_file", .string file), ("error", .string error)]

/-- The option pairs of a request by name; of several with one name the last counts. -/
def optionMembers (options : List (String × String)) : Json :=
  Json.ofMembers (options.map fun (name, value) => (name, .string value))

def request (client : SocketAddress) (filename mode : String)
    (options : List (String × String)) : Detail :=
  writeRequest client.render filename mode (optionMembers options)

/-- Bytes per second, and 0 where no time has passed. The product is a word of 64 bits, which
wraps around. -/
def rate (size duration : Nat) : Nat := size * 1000 % (Decimal.maxWord64 + 1) / duration

def completed (client : SocketAddress) (filename : String) (size blocks duration : Nat) :
    Detail :=
  writeCompleted client.render filename size blocks duration (rate size duration)

end Detail

namespace Event

def service : String := "tftp-upload"

def make (timestamp hostname : String) (transfer : Option String) (detail : Detail) : Event :=
  { stamp := {
      timestamp, hostname, service
      severity := detail.severity.name
      correlation := if detail.isOfTransfer then transfer else none }
    detail }

def toJson (event : Event) : Json :=
  .object
    ([("event_type", .string event.detail.kind), ("timestamp", .string event.stamp.timestamp),
      ("hostname", .string event.stamp.hostname), ("service", .string event.stamp.service),
      ("severity", .string event.stamp.severity)] ++
      (event.stamp.correlation.map fun id => ("correlation_id", Json.string id)).toList ++
      event.detail.members)

def render (event : Event) : String := event.toJson.render

/-- The urgency with which an event is told; an unknown severity counts as the least. -/
def urgency (event : Event) : Severity :=
  match event.stamp.severity with
  | "error" => .error
  | "warn" => .warn
  | _ => .info

def text? (name : String) (members : List (String × Json)) : Option String :=
  match Json.member? name members with
  | some (.string s) => some s
  | _ => none

/-- A text that may also be missing or null. -/
def optionalText? (name : String) (members : List (String × Json)) : Option (Option String) :=
  match Json.member? name members with
  | some (.string s) => some (some s)
  | some .null | none => some none
  | _ => none

def number? (limit : Nat) (name : String) (members : List (String × Json)) : Option Nat :=
  match Json.member? name members with
  | some (.number (.integer n)) => if 0 ≤ n ∧ n ≤ limit then some n.toNat else none
  | _ => none

def word64? : String → List (String × Json) → Option Nat := number? Decimal.maxWord64

def stamp? (members : List (String × Json)) : Option Stamp := do
  return {
    timestamp := ← text? "timestamp" members
    hostname := ← text? "hostname" members
    service := ← text? "service" members
    severity := ← text? "severity" members
    correlation := ← optionalText? "correlation_id" members }

def detail? (kind : String) (members : List (String × Json)) : Option Detail := do
  let text := fun name => text? name members
  let word64 := fun name => word64? name members
  match kind with
  | "server_started" => return .serverStarted (← text "bind_addr") (← text "root_dir")
  | "write_request" =>
    return .writeRequest (← text "client_addr") (← text "filename") (← text "mode")
      (← Json.member? "options" members).ordered
  | "request_rejected" =>
    return .requestRejected (← text "client_addr") (← optionalText? "filename" members)
      (← number? Decimal.maxWord32 "error_code" members) (← text "reason")
  | "write_started" =>
    return .writeStarted (← text "client_addr") (← text "filename") (← word64 "block_size")
      (← word64 "timeout_ms") (← word64 "declared_size")
  | "write_completed" =>
    return .writeCompleted (← text "client_addr") (← text "filename")
      (← word64 "bytes_received") (← word64 "blocks_received") (← word64 "duration_ms")
      (← word64 "throughput_bps")
  | "write_failed" =>
    return .writeFailed (← text "client_addr") (← text "filename") (← text "error")
      (← word64 "blocks_received")
  | "protocol_violation" =>
    return .protocolViolation (← text "client_addr") (← text "violation")
  | "path_traversal_attempt" =>
    return .pathTraversalAttempt (← text "client_addr") (← text "requested_path")
      (← text "violation_type")
  | "configuration_loaded" => return .configurationLoaded (← text "config_file")
  | "configuration_error" =>
    return .configurationError (← text "config_file") (← text "error")
  | _ => none

/-- The names that an event of this kind may have but once. -/
def names (event : Event) : List String :=
  ["event_type", "timestamp", "hostname", "service", "severity", "correlation_id"] ++
    event.detail.members.map (·.1)

/-- Members with other names are passed over. -/
def ofJson? : Json → Option Event
  | .object members => do
    let kind ← text? "event_type" members
    let event : Event := { stamp := ← stamp? members, detail := ← detail? kind members }
    if event.names.all fun name => (members.filter (·.1 = name)).length ≤ 1 then some event
    else none
  | _ => none

def parse? (text : String) : Option Event := (Json.parse? text).bind ofJson?

end Event

def hex (n : Nat) : String := String.ofList (Nat.toDigits 16 n)

/-- A hash of the filename, which is ended by a byte that no text holds. -/
def filenameHash (filename : String) : UInt64 :=
  SipHash.hash 1 3 0 0 (Utf8.encode filename ++ [0xff])

/-- Ties together the events of the transfer that a client starts at a time, which is in
milliseconds. -/
def correlation (time : Nat) (client : SocketAddress) (filename : String) : String :=
  let address := client.render.toList.map fun c => if c = ':' then '-' else c
  hex time ++ "-" ++ String.ofList address ++ "-" ++ hex (filenameHash filename).toNat

end TftpReceiver.Audit
