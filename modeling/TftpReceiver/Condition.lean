import TftpReceiver.ErrorCode
import TftpReceiver.HostError
import TftpReceiver.Text.Decimal

/-! Why a transfer is refused or ended: a code of the protocol, or a failure of the
host with its own text. -/

namespace TftpReceiver

inductive Condition
  | protocol (code : ErrorCode)
  | host (number : Option Int) (text : String)
  deriving DecidableEq, Repr, Inhabited

namespace Condition

def ofHostError : HostError → Condition
  | .system number => host (some number) (HostError.systemText number)
  | .kind .notFound _ => protocol .fileNotFound
  | .kind .permissionDenied _ => protocol .accessViolation
  | .kind .alreadyExists _ => protocol .fileExists
  | .kind .storageFull _ => protocol .diskFull
  | .kind .writeZero _ => protocol .diskFull
  | .kind k text => host none (HostError.kind k text).message

/-- The code on the wire; failures of the host go out as "not defined". -/
def wireCode : Condition → UInt16
  | protocol code => code.word
  | host _ _ => ErrorCode.notDefined.word

/-- The code in reports, where failures of the host start at 100. -/
def reportCode : Condition → Nat
  | protocol code => code.word.toNat
  | host number _ => 100 + (number.getD 0).toNat

def message : Condition → String
  | protocol code => code.message
  | host _ text => text

end Condition

end TftpReceiver
