import TftpReceiver.Condition
import TftpReceiver.Glob

/-! Why the receiver gives up, with the texts told to its user. -/

namespace TftpReceiver

/-- What is wrong with the settings. -/
inductive SettingsFault
  | unreadable (path : String)
  | rootRelative
  | rootNotDirectory
  | rootMissing
  | rootInaccessible (path : String) (error : HostError)
  | portZero
  | addressUnavailable (error : HostError)
  | logWithoutParent
  | logParentNotDirectory
  | logParent (error : HostError)
  | interval
  | retries
  | emptyPattern
  | pattern (text : String) (error : Glob.PatternError)
  deriving DecidableEq, Repr, Inhabited

def SettingsFault.message : SettingsFault → String
  | unreadable path => "Invalid config file " ++ path
  | rootRelative => "root_dir must be an absolute path"
  | rootNotDirectory => "root_dir must be a directory"
  | rootMissing => "root_dir does not exist; create it or set create_root_dir"
  | rootInaccessible path error =>
    "root_dir " ++ path ++ " is not accessible: " ++ error.message
  | portZero => "bind_addr port must be non-zero"
  | addressUnavailable error => "bind_addr is not available: " ++ error.message
  | logWithoutParent => "logging.file must include a parent directory"
  | logParentNotDirectory => "logging.file parent must be a directory"
  | logParent error => "logging.file parent error: " ++ error.message
  | interval => "transfer.retransmit_timeout_ms must be in range 1000-255000"
  | retries => "transfer.max_retries must be at least 1"
  | emptyPattern => "write_config.allowed_patterns cannot contain empty patterns"
  | pattern text error => "Invalid write pattern '" ++ text ++ "': " ++ error.message

inductive Failure
  | host (error : HostError)
  | settings (fault : SettingsFault)
  | aborted (condition : Condition)
  | peer (code : UInt16) (message : String)
  | timedOut (retries : Nat)
  | idle (seconds : Nat)
  deriving DecidableEq, Repr, Inhabited

namespace Failure

def message : Failure → String
  | host error => "IO error: " ++ error.message
  | settings fault => "Invalid configuration: " ++ fault.message
  | aborted condition =>
    "Transfer aborted (code " ++ Decimal.render condition.reportCode ++ "): " ++
      condition.message
  | peer code message =>
    "Peer sent error " ++ Decimal.render code.toNat ++ ": " ++ message
  | timedOut retries =>
    "Transfer timed out after " ++ Decimal.render retries ++ " retransmissions"
  | idle seconds => "No request received within " ++ Decimal.render seconds ++ " seconds"

/-- The message, with the failure of the host that is its cause told once more. -/
def report (failure : Failure) : String :=
  match failure with
  | host error => failure.message ++ ": " ++ error.message
  | _ => failure.message

end Failure

end TftpReceiver
