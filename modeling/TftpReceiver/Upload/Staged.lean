import TftpReceiver.FileTree.Change
import TftpReceiver.Transfer.Sink

/-! An upload in the making: a file beside the target under a name of its own, which
takes the target's name when it is complete. -/

namespace TftpReceiver

/-- `opened` is the open file, if it is still open, and `pending` what was taken for it
but has not reached it. -/
structure StagedUpload where
  tree : FileTree
  target : String
  keepPartial : Bool
  opened : Option Location
  pending : Bytes := []
  finished : Bool := false
  deriving DecidableEq, Repr, Inhabited

namespace StagedUpload

def suffix : String := ".upload"

def stagingPath (target : String) : String := target ++ suffix

def staging (upload : StagedUpload) : String := stagingPath upload.target

def bufferSize : Nat := 8192

def closed : HostError := .kind .other (some "staged file already closed")

def create (tree : FileTree) (target : String) (keepPartial : Bool) :
    Except HostError StagedUpload :=
  match tree.create (stagingPath target) with
  | .ok (place, tree) => .ok { tree, target, keepPartial, opened := some place }
  | .error e => .error e

/-- Brings what is pending into the file. -/
def settle (upload : StagedUpload) : StagedUpload :=
  match upload.opened with
  | none => upload
  | some place =>
    { upload with tree := upload.tree.append place upload.pending, pending := [] }

def hand (payload : Bytes) (upload : StagedUpload) : StagedUpload :=
  let room := bufferSize - upload.pending.length
  if payload.length < room then { upload with pending := upload.pending ++ payload }
  else
    let upload := if room < payload.length then upload.settle else upload
    if bufferSize ≤ payload.length then
      { upload with pending := payload }.settle
    else { upload with pending := upload.pending ++ payload }

def write (upload : StagedUpload) (payload : Bytes) : Except HostError Nat × StagedUpload :=
  if upload.opened.isNone then (.error closed, upload)
  else (.ok payload.length, upload.hand payload)

def flush (upload : StagedUpload) : Except HostError Unit × StagedUpload :=
  if upload.opened.isNone then (.error closed, upload) else (.ok (), upload.settle)

def close (upload : StagedUpload) : StagedUpload := { upload.settle with opened := none }

/-- The file is closed by the first attempt, whether the rename succeeds or not. -/
def publish (upload : StagedUpload) : Except HostError Unit × StagedUpload :=
  if upload.opened.isNone then (.error closed, upload)
  else
    let upload := upload.close
    match upload.tree.rename upload.staging upload.target with
    | .ok tree => (.ok (), { upload with tree, finished := true })
    | .error e => (.error e, upload)

/-- Nothing is dropped twice, and nothing that was published. -/
def discard (upload : StagedUpload) : Except HostError Unit × StagedUpload :=
  if upload.finished then (.ok (), upload)
  else
    let upload := { upload.close with finished := true }
    if upload.keepPartial then (.ok (), upload)
    else
      match upload.tree.remove upload.staging with
      | .ok tree => (.ok (), { upload with tree })
      | .error e => (if e.isNotFound then .ok () else .error e, upload)

instance : Sink StagedUpload where
  write := write
  flush := flush
  publish := publish
  discard := discard

end StagedUpload

end TftpReceiver
