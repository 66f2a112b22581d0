/-! The error codes of the protocol with their names and fixed texts. -/

namespace TftpReceiver

inductive ErrorCode
  | notDefined
  | fileNotFound
  | accessViolation
  | diskFull
  | illegalOperation
  | unknownTransfer
  | fileExists
  | noSuchUser
  | optionNegotiation
  deriving DecidableEq, Repr, Inhabited

namespace ErrorCode

def all : List ErrorCode :=
  [notDefined, fileNotFound, accessViolation, diskFull, illegalOperation, unknownTransfer,
    fileExists, noSuchUser, optionNegotiation]

def word : ErrorCode → UInt16
  | notDefined => 0
  | fileNotFound => 1
  | accessViolation => 2
  | diskFull => 3
  | illegalOperation => 4
  | unknownTransfer => 5
  | fileExists => 6
  | noSuchUser => 7
  | optionNegotiation => 8

def ofWord? (value : UInt16) : Option ErrorCode := all.find? (·.word = value)

def name : ErrorCode → String
  | notDefined => "not_defined"
  | fileNotFound => "file_not_found"
  | accessViolation => "access_violation"
  | diskFull => "disk_full"
  | illegalOperation => "illegal_operation"
  | unknownTransfer => "unknown_tid"
  | fileExists => "file_exists"
  | noSuchUser => "no_such_user"
  | optionNegotiation => "option_negotiation"

def message : ErrorCode → String
  | notDefined => "Undefined error code"
  | fileNotFound => "File not found"
  | accessViolation => "Access violation"
  | diskFull => "Disk full or allocation exceeded"
  | illegalOperation => "Illegal TFTP operation"
  | unknownTransfer => "Unknown transfer ID"
  | fileExists => "File already exists"
  | noSuchUser => "No such user"
  | optionNegotiation => "Option negotiation failed"

theorem mem_all (code : ErrorCode) : code ∈ all := by
  cases code <;> decide

theorem ofWord?_word (code : ErrorCode) : ofWord? code.word = some code := by
  cases code <;> decide

end ErrorCode

end TftpReceiver
