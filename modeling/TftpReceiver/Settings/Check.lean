import TftpReceiver.Failure
import TftpReceiver.FileTree.Change
import TftpReceiver.Settings
import TftpReceiver.Text.Blank
import TftpReceiver.Text.Utf8

/-! Settings in a file, and whether a receiver can start with them. -/

namespace TftpReceiver.Settings

def load (tree : FileTree) (path : String) : Except Failure Settings :=
  match tree.read path with
  | .error e => .error (.host e)
  | .ok data =>
    match Utf8.decode? data with
    | none => .error (.host .invalidText)
    | some text =>
      match parse? text with
      | none => .error (.settings (.unreadable path))
      | some s => .ok s

def save (s : Settings) (tree : FileTree) (path : String) : Except Failure FileTree :=
  (tree.write path (Utf8.encode s.render)).mapError .host

def fail (fault : SettingsFault) : Except Failure Unit := .error (.settings fault)

def checkRoot (s : Settings) (tree : FileTree) : Except Failure Unit :=
  if ¬ Path.isAbsolute s.root then fail .rootRelative
  else
    match tree.inspect true s.root with
    | .ok (_, .directory) => .ok ()
    | .ok _ => fail .rootNotDirectory
    | .error e => if e.isNotFound then fail .rootMissing else .error (.host e)

/-- `taken` is why the address cannot be had, if that was tried. -/
def checkAddress (s : Settings) (taken : Option HostError) : Except Failure Unit :=
  if s.bind.port = 0 then fail .portZero
  else
    match taken with
    | some e => fail (.addressUnavailable e)
    | none => .ok ()

/-- The directory of the log file must be there. -/
def checkLogging (s : Settings) (tree : FileTree) : Except Failure Unit :=
  match s.logging.file with
  | none => .ok ()
  | some file =>
    match Path.parent? file with
    | none => fail .logWithoutParent
    | some parent =>
      match tree.inspect true parent with
      | .ok (_, .directory) => .ok ()
      | .ok _ => fail .logParentNotDirectory
      | .error e => fail (.logParent e)

def minInterval : Nat := 1000
def maxInterval : Nat := 255000

def checkTransfer (s : Settings) : Except Failure Unit :=
  if s.transfer.interval < minInterval ∨ maxInterval < s.transfer.interval then fail .interval
  else if s.transfer.maxRetries = 0 then fail .retries
  else .ok ()

def checkPattern (text : String) : Except Failure Unit :=
  if Text.isBlank text then fail .emptyPattern
  else
    match Pattern.parse text with
    | .ok _ => .ok ()
    | .error e => fail (.pattern text e)

/-- The first fault in this order is told. -/
def check (s : Settings) (tree : FileTree) (taken : Option HostError) :
    Except Failure Unit := do
  s.checkRoot tree
  s.checkAddress taken
  s.checkLogging tree
  s.checkTransfer
  s.writing.allowedPatterns.forM checkPattern

end TftpReceiver.Settings
