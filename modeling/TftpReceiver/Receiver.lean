import TftpReceiver.Audit
import TftpReceiver.Request
import TftpReceiver.Settings.Check
import TftpReceiver.Transfer
import TftpReceiver.Upload.Policy

/-! What a receiver makes of a datagram at its well-known port: an accepted upload or a
refusal, and in both cases the notes for the audit trail. -/

namespace TftpReceiver

/-- A datagram and where it came from. -/
structure Arrival where
  source : SocketAddress
  bytes : Bytes
  deriving DecidableEq, Repr

/-- An entry for the audit trail that is not stamped yet. -/
structure Note where
  transfer : Option String := none
  detail : Audit.Detail
  deriving DecidableEq, Repr, Inhabited

structure Receiver where
  policy : WritePolicy
  limits : Settings.Transfer
  audits : Bool
  deriving DecidableEq, Repr

/-- A write request that was accepted; its staging file is there. -/
structure Acceptance where
  peer : SocketAddress
  filename : String
  correlation : String
  target : String
  negotiation : Negotiation
  upload : StagedUpload
  deriving DecidableEq, Repr

namespace Receiver

def create (tree : FileTree) (settings : Settings) : Except SettingsFault Receiver :=
  (fun policy => { policy, limits := settings.transfer, audits := settings.logging.audit }) <$>
    WritePolicy.create tree settings.root settings.writing.allowOverwrite
      settings.writing.allowedPatterns

/-- A receiver with default settings for a directory, which is made when it is missing. -/
def forDirectory (tree : FileTree) (root : String) : Except Failure Receiver × FileTree :=
  match tree.createDirectories root with
  | (.error e, tree) => (.error (.host e), tree)
  | (.ok (), tree) => ((create tree { root }).mapError .settings, tree)

/-- What the options of a request are granted against. -/
def defaults (receiver : Receiver) : TransferOptions :=
  { interval := receiver.limits.interval }

def readRefusal : String := "only uploads are served"

def rejected (client : SocketAddress) (filename : Option String) (code : Nat) (reason : String) :
    Note :=
  { detail := .requestRejected client.render filename code reason }

/-- An attempt to leave the root directory is noted on its own. -/
def refusal (client : SocketAddress) (filename : String) (violation : Violation) : List Note :=
  (if violation.isEscape then
    [{ detail := .pathTraversalAttempt client.render filename violation.name }]
  else []) ++
    [rejected client (some filename) violation.code.word.toNat violation.name]

/-- Times are in milliseconds. -/
def considerWrite (receiver : Receiver) (tree : FileTree) (now : Nat) (client : SocketAddress)
    (request : Request) : List Note × Except Condition Acceptance :=
  let filename := request.filename
  let correlation := Audit.correlation now client filename
  let asked : Note :=
    { transfer := some correlation
      detail := .request client filename request.mode.name request.options }
  match receiver.policy.resolve tree filename with
  | .error violation =>
    (asked :: refusal client filename violation, .error (.protocol violation.code))
  | .ok path =>
    match StagedUpload.create tree path.target receiver.limits.keepPartial with
    | .error e =>
      let condition := Condition.ofHostError e
      ([asked, rejected client (some filename) condition.reportCode condition.message],
        .error condition)
    | .ok upload =>
      ([asked],
        .ok {
          peer := client, filename, correlation, target := path.target, upload
          negotiation := Negotiation.ofPairs receiver.defaults 0 request.options })

def consider (receiver : Receiver) (tree : FileTree) (now : Nat) (arrival : Arrival) :
    List Note × Except Condition Acceptance :=
  let client := arrival.source
  match Request.decode arrival.bytes with
  | .error code =>
    ([{ detail := .protocolViolation client.render code.message },
      rejected client none code.word.toNat code.message], .error (.protocol code))
  | .ok request =>
    match request.direction with
    | .read =>
      let code := ErrorCode.illegalOperation
      ([rejected client (some request.filename) code.word.toNat readRefusal],
        .error (.protocol code))
    | .write => receiver.considerWrite tree now client request

/-- The paths on which the answer to a datagram depends. -/
def places (receiver : Receiver) (arrival : Arrival) : List String :=
  match Request.decode arrival.bytes with
  | .error _ => []
  | .ok request =>
    let target :=
      Path.join receiver.policy.root (WritePolicy.relativeName request.filename)
    [target, StagedUpload.stagingPath target]

end Receiver

end TftpReceiver
