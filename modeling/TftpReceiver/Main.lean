import Std.Async.System
import TftpReceiver.Audit.Log
import TftpReceiver.Command.Plan
import TftpReceiver.Disk
import TftpReceiver.Network

/-! The program: it reads the part of the disk that its arguments are about, serves one
upload over the network, and brings what became of the files back to the disk. -/

namespace TftpReceiver.Main

open Std.Async.UDP (Socket)

/-- Milliseconds since 1970, which move on steadily from the start of the program. -/
def clock : IO (IO Nat) := do
  let start ← Std.Time.Timestamp.now
  let offset := start.toMillisecondsSinceUnixEpoch.toInt.toNat - (← IO.monoMsNow)
  return return (← IO.monoMsNow) + offset

def timestampFormat : Std.Time.GenericFormat .any :=
  datespec("uuuu-MM-dd'T'HH:mm:ss.SSSSSSSSSxxx")

def timestamp : IO String :=
  return timestampFormat.format (.ofTimestamp (← Std.Time.Timestamp.now) .UTC)

def hostname : IO String := do
  match ← EIO.toBaseIO Std.Async.System.getHostName with
  | .ok name => return name
  | .error _ => return "unknown"

/-- Writes an entry to the log file, or to the standard error output where none is set. -/
def tell (logging : Settings.Logging) (note : Note) : IO Unit := do
  let event := Audit.Event.make (← timestamp) (← hostname) note.transfer note.detail
  if Audit.isTold logging.level event.urgency then
    let line := event.line logging.format ++ "\n"
    match logging.file.bind Command.logPath? with
    | none => IO.eprint line
    | some file => (← IO.FS.Handle.mk file .append).putStr line

def conclude (ending : Ending) : IO UInt32 := do
  IO.print ending.output
  if let some error := ending.error then IO.eprintln error
  return UInt32.ofNat ending.code

/-- The file tree that the arguments are about. -/
def survey (arguments : List String) : IO FileTree := do
  let tree : FileTree := { working := ← Disk.working }
  match Command.parse arguments with
  | .error _ => return tree
  | .ok command =>
    let tree ← Disk.look true tree command.configPath
    match command.settings tree with
    | .error _ => return tree
    | .ok settings =>
      (settings.root :: settings.logging.file.toList).foldlM (Disk.look false) tree

/-- `sockets` are those of the two ports. -/
structure Host where
  sockets : Port → Socket
  now : IO Nat
  tell : Note → IO Unit

def carryOut (host : Host) (session : Session) : Output → IO Session
  | .note note => do
    host.tell note
    return session
  | .send port target packet => do
    match ← EIO.toBaseIO (Network.send (host.sockets port) target packet) with
    | .ok () => return session
    | .error raised => return session.onSendFailure target (Disk.failure raised)

/-- Shows a session that listens what there is now in the places that the datagrams are about. -/
def refresh (session : Session) (arrivals : List Arrival) : IO Session := do
  match session.stage with
  | .listening tree =>
    let places := session.receiver.policy.root :: arrivals.flatMap session.receiver.places
    let tree ← places.foldlM (Disk.look false) { working := tree.working }
    return session.withTree tree
  | _ => return session

/-- How many datagrams are taken at once. -/
def batch : Nat := 64

def await (host : Host) (session : Session) : IO (List Arrival) := do
  let socket := host.sockets session.port
  let now ← host.now
  match ← EIO.toBaseIO (Network.next? socket ((session.dueTime now).map (· - now))) with
  | .ok (some arrival) => return arrival :: (← Network.pending socket batch)
  | _ => return []

/-- One event: the files are brought up to date before anyone is answered. -/
def advance (host : Host) (session : Session) : IO Session := do
  let arrivals ← await host session
  let session ← refresh session arrivals
  let now ← host.now
  let (outputs, next) :=
    if arrivals.isEmpty then session.settle now else session.receive now arrivals
  let (outputs, next) ← match ← EIO.toBaseIO (Disk.update session.tree next.tree) with
    | .ok () => pure (outputs, next)
    | .error raised =>
      let (outputs, next) := session.onStorageFailure now (Disk.failure raised)
      discard (EIO.toBaseIO (Disk.update session.tree next.tree))
      pure (outputs, next)
  let last ← outputs.foldlM (carryOut host) next
  Disk.update next.tree last.tree
  return last.withTree (Disk.outline last.tree)

partial def serve (host : Host) (session : Session) : IO (Except Failure Outcome) := do
  match session.stage with
  | .ended _ result => return result
  | _ => serve host (← advance host session)

def serveOn (rendezvous : Socket) (service : Service) (tree : FileTree) : IO Ending := do
  let now ← clock
  let address ← Network.localAddress rendezvous
  let transfer ← Network.bind (address.withPort 0)
  let host : Host := {
    sockets := fun | .rendezvous => rendezvous | .transfer => transfer
    now
    tell := tell service.settings.logging }
  service.notes.forM host.tell
  let (notes, started) := Session.start service.receiver tree address false (← now)
  notes.forM host.tell
  match started with
  | none => return .waitTooLong
  | some session => return .ofResult (← serve host session)

def finish (before after : FileTree) (notes : List Note) (ending : Ending) : IO UInt32 := do
  Disk.update before after
  notes.forM (tell {})
  conclude ending

def run (arguments : List String) : IO UInt32 := do
  let before ← survey arguments
  match Command.run arguments before fun _ => none with
  | (.finish notes ending, after) => finish before after notes ending
  | (.serve service, after) =>
    match ← EIO.toBaseIO (Network.bind service.settings.bind) with
    | .ok rendezvous =>
      Disk.update before after
      conclude (← serveOn rendezvous service after)
    | .error raised =>
      match Command.run arguments before fun _ => some (Disk.failure raised) with
      | (.finish notes ending, after) => finish before after notes ending
      | (.serve _, after) =>
        finish before after [] (.ofFailure (.host (Disk.failure raised)))

end TftpReceiver.Main

def main (arguments : List String) : IO UInt32 := TftpReceiver.Main.run arguments
