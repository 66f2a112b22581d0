import TftpReceiver.Audit
import TftpReceiver.Settings

/-! The log: which events a level lets through, and the line that is written for one. -/

namespace TftpReceiver.Audit

def Severity.rank : Severity → Nat
  | info => 0
  | warn => 1
  | error => 2

/-- The least severity that is told at a level; none where nothing is. A level that is not
known tells errors only. -/
def threshold? (level : String) : Option Severity :=
  match String.ofList (level.toList.map Char.toLower) with
  | "off" => none
  | "warn" => some .warn
  | "info" | "debug" | "trace" => some .info
  | _ => some .error

def isTold (level : String) (severity : Severity) : Bool :=
  (threshold? level).any (·.rank ≤ severity.rank)

def Event.line (format : Settings.LogFormat) (event : Event) : String :=
  let level := event.urgency.name.toUpper
  match format with
  | .text => event.stamp.timestamp ++ " " ++ level ++ " audit_event=" ++ event.render
  | .json =>
    (Json.object
      [("timestamp", .string event.stamp.timestamp), ("level", .string level),
        ("fields", .object [("audit_event", .string event.render)])]).render

end TftpReceiver.Audit
