import TftpReceiver.SocketAddress
import TftpReceiver.Toml.Reader

/-! The settings of a receiver and their form as a document, in which every field that
is missing has its default. -/

namespace TftpReceiver

namespace Settings

/-- `interval` is in milliseconds. With 0 as `idleSeconds` the receiver waits for a
request without end. -/
structure Transfer where
  interval : Nat := 1000
  maxRetries : Nat := 5
  idleSeconds : Nat := 0
  keepPartial : Bool := false
  deriving DecidableEq, Repr, Inhabited

structure Writing where
  allowOverwrite : Bool := true
  allowedPatterns : List String := []
  deriving DecidableEq, Repr, Inhabited

inductive LogFormat
  | text
  | json
  deriving DecidableEq, Repr, Inhabited

structure Logging where
  level : String := "info"
  format : LogFormat := .text
  file : Option String := none
  audit : Bool := true
  deriving DecidableEq, Repr, Inhabited

def LogFormat.name : LogFormat → String
  | text => "text"
  | json => "json"

def LogFormat.ofName? (name : String) : Option LogFormat :=
  [text, json].find? (·.name = name)

def defaultPort : UInt16 := 69

end Settings

structure Settings where
  root : String := "/var/lib/tftp-upload"
  bind : SocketAddress := .v4 Ipv4.any Settings.defaultPort
  createRoot : Bool := true
  transfer : Settings.Transfer := {}
  writing : Settings.Writing := {}
  logging : Settings.Logging := {}
  deriving DecidableEq, Repr

namespace Settings

open Toml (Value Field Document)

def document (s : Settings) : Document where
  pairs :=
    [("root_dir", .text s.root), ("bind_addr", .text s.bind.render),
      ("create_root_dir", .flag s.createRoot)]
  sections :=
    [("transfer",
        [("retransmit_timeout_ms", .number s.transfer.interval),
          ("max_retries", .number s.transfer.maxRetries),
          ("idle_timeout_secs", .number s.transfer.idleSeconds),
          ("keep_partial_uploads", .flag s.transfer.keepPartial)]),
      ("write_config",
        [("allow_overwrite", .flag s.writing.allowOverwrite),
          ("allowed_patterns", .texts s.writing.allowedPatterns)]),
      ("logging",
        [("level", .text s.logging.level), ("format", .text s.logging.format.name)] ++
          (s.logging.file.map fun file => ("file", Field.text file)).toList ++
          [("audit_enabled", .flag s.logging.audit)])]

def text? : Value → Option String
  | .string s => some s
  | _ => none

def flag? : Value → Option Bool
  | .boolean b => some b
  | _ => none

def number? (limit : Nat) : Value → Option Nat
  | .integer n => if 0 ≤ n ∧ n ≤ limit then some n.toNat else none
  | _ => none

def texts? : Value → Option (List String)
  | .array items => items.mapM text?
  | _ => none

def address? (value : Value) : Option SocketAddress := (text? value).bind SocketAddress.parse?

/-- A format may also be named by a table that holds nothing else and nothing in it. -/
def format? : Value → Option LogFormat
  | .string name | .table [(name, .table [])] | .table [(name, .array [])] =>
    LogFormat.ofName? name
  | _ => none

/-- The values of a section, which may also stand in an array in the order of `names`. -/
def section? (names : List String) : Value → Option Toml.Members
  | .table members => some members
  | .array items => some (names.zip items)
  | _ => none

def get? (read : Value → Option α) (default : α) (name : String) (members : Toml.Members) :
    Option α :=
  match members.lookup name with
  | none => some default
  | some value => read value

def transfer? (value : Value) : Option Transfer := do
  let members ← section?
    ["retransmit_timeout_ms", "max_retries", "idle_timeout_secs", "keep_partial_uploads"] value
  let default : Transfer := {}
  return {
    interval :=
      ← get? (number? Decimal.maxWord64) default.interval "retransmit_timeout_ms" members
    maxRetries := ← get? (number? Decimal.maxWord32) default.maxRetries "max_retries" members
    idleSeconds :=
      ← get? (number? Decimal.maxWord64) default.idleSeconds "idle_timeout_secs" members
    keepPartial := ← get? flag? default.keepPartial "keep_partial_uploads" members }

def writing? (value : Value) : Option Writing := do
  let members ← section? ["allow_overwrite", "allowed_patterns"] value
  let default : Writing := {}
  return {
    allowOverwrite := ← get? flag? default.allowOverwrite "allow_overwrite" members
    allowedPatterns := ← get? texts? default.allowedPatterns "allowed_patterns" members }

def logging? (value : Value) : Option Logging := do
  let members ← section? ["level", "format", "file", "audit_enabled"] value
  let default : Logging := {}
  return {
    level := ← get? text? default.level "level" members
    format := ← get? format? default.format "format" members
    file := ← get? (fun value => (text? value).map some) default.file "file" members
    audit := ← get? flag? default.audit "audit_enabled" members }

/-- Names that are not known are passed over. -/
def ofMembers? (members : Toml.Members) : Option Settings := do
  let default : Settings := {}
  return {
    root := ← get? text? default.root "root_dir" members
    bind := ← get? address? default.bind "bind_addr" members
    createRoot := ← get? flag? default.createRoot "create_root_dir" members
    transfer := ← get? transfer? default.transfer "transfer" members
    writing := ← get? writing? default.writing "write_config" members
    logging := ← get? logging? default.logging "logging" members }

def render (s : Settings) : String := s.document.render

def parse? (text : String) : Option Settings := (Toml.parse? text).bind ofMembers?

end Settings

end TftpReceiver
