import TftpReceiver.Command
import TftpReceiver.Session

/-! What a command comes to: an end at once, or a session to be served. -/

namespace TftpReceiver

/-- How the program ends: its exit code and what it tells. -/
structure Ending where
  code : Nat
  output : String := ""
  error : Option String := none
  deriving DecidableEq, Repr, Inhabited

/-- A session that can be served, with the notes that come before those of the session. -/
structure Service where
  receiver : Receiver
  settings : Settings
  notes : List Note
  deriving Repr

/-- Notes are taken of settings that cannot be used. -/
inductive Plan
  | finish (notes : List Note) (ending : Ending)
  | serve (service : Service)
  deriving Repr

namespace Ending

def failed (text : String) : Ending := { code := 1, error := some ("Error: " ++ text) }

def ofFailure (failure : Failure) : Ending := failed failure.report

def ofRefusal : Command.Refusal → Ending
  | .help => { code := 0, output := Command.help }
  | .usage => { code := 2, error := some Command.usage }

/-- The program breaks off where it cannot go on and cannot be blamed for it. -/
def broken (reason : String) : Ending := { code := 101, error := some reason }

def logUnavailable : Ending := broken "the log file cannot be opened"

/-- No clock shows the time at which the wait for a request would end. -/
def waitTooLong : Ending := broken "the idle timeout is too long"

def ofResult : Except Failure Outcome → Ending
  | .ok outcome => { code := 0, output := "Successfully received: " ++ outcome.path ++ "\n" }
  | .error failure => ofFailure failure

end Ending

namespace Plan

def finished (ending : Ending) : Plan := finish [] ending

def unusable (path : String) (failure : Failure) : Plan :=
  finish [{ detail := .configurationError path failure.message }] (.ofFailure failure)

end Plan

namespace Command

def logNameMissing : String := "logging.file must include a file name"

/-- The settings of the file, if it is there, under those of the arguments. -/
def settings (command : Command) (tree : FileTree) : Except Failure Settings := do
  let loaded ←
    if (tree.inspect true command.configPath).toBool then Settings.load tree command.configPath
    else pure {}
  return { loaded with
    root := command.root.getD loaded.root
    bind := command.bind.getD loaded.bind
    createRoot := loaded.createRoot || command.createRoot }

/-- The path of a log file by its directory and its name. -/
def logPath? (file : String) : Option String :=
  (Path.fileName? file).map (Path.join ((Path.parent? file).getD "."))

/-- The tree with an open log file in it. -/
def openLog (tree : FileTree) (file : Option String) : Except Ending FileTree :=
  match file with
  | none => .ok tree
  | some file =>
    match logPath? file with
    | none => .error (.failed logNameMissing)
    | some path =>
      match tree.touch path with
      | .ok tree => .ok tree
      | .error _ => .error .logUnavailable

/-- A service on a port; `taken` tells why an address cannot be had. -/
def service (command : Command) (s : Settings) (tree : FileTree)
    (taken : SocketAddress → Option HostError) (hasConfig : Bool) : Plan × FileTree :=
  match s.check tree (taken s.bind) with
  | .error failure => (.unusable command.configPath failure, tree)
  | .ok () =>
    match openLog tree s.logging.file with
    | .error ending => (.finished ending, tree)
    | .ok tree =>
      match Receiver.create tree s with
      | .error fault => (.finished (.ofFailure (.settings fault)), tree)
      | .ok receiver =>
        let loaded : Note := { detail := .configurationLoaded command.configPath }
        let notes := if s.logging.audit && hasConfig then [loaded] else []
        (.serve { receiver, settings := s, notes }, tree)

/-- Writing the settings comes before making the root directory, and both before
anything is checked. -/
def plan (command : Command) (tree : FileTree) (taken : SocketAddress → Option HostError) :
    Plan × FileTree :=
  let path := command.configPath
  match command.settings tree with
  | .error failure => (.unusable path failure, tree)
  | .ok s =>
    if command.initConfig then
      match s.save tree path with
      | .error failure =>
        (.finished (.failed ("writing " ++ path ++ ": " ++ failure.report)), tree)
      | .ok tree => (.finished { code := 0, output := "Wrote config to " ++ path ++ "\n" }, tree)
    else
      let (made, tree') :=
        if s.createRoot then tree.createDirectories s.root else (.ok (), tree)
      match made with
      | .error e => (.finished (.failed ("creating " ++ s.root ++ ": " ++ e.message)), tree')
      | .ok () =>
        if command.checkConfig then
          match s.check tree' none with
          | .error failure => (.unusable path failure, tree')
          | .ok () => (.finished { code := 0, output := "Config OK: " ++ path ++ "\n" }, tree')
        else
          match command.port.bind (Decimal.parse? Decimal.maxWord16) with
          | none => (.finished { code := 0, output := help ++ "\n" }, tree')
          | some port =>
            command.service { s with bind := s.bind.withPort (UInt16.ofNat port) } tree' taken
              (tree.inspect true path).toBool

/-- What the arguments come to. -/
def run (arguments : List String) (tree : FileTree)
    (taken : SocketAddress → Option HostError) : Plan × FileTree :=
  match parse arguments with
  | .error refusal => (.finished (.ofRefusal refusal), tree)
  | .ok command => command.plan tree taken

end Command

end TftpReceiver
