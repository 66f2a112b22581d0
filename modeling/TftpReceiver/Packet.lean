import TftpReceiver.Condition
import TftpReceiver.Text.Utf8

/-! The datagrams of the protocol: what a receiver reads and what is sent. -/

namespace TftpReceiver

inductive Direction
  | read
  | write
  deriving DecidableEq, Repr, Inhabited

inductive Opcode
  | request (direction : Direction)
  | data
  | ack
  | error
  | optionAck
  deriving DecidableEq, Repr, Inhabited

/-- Requests and option acknowledgements are told apart but not taken apart. -/
inductive Packet
  | request (direction : Direction)
  | data (block : UInt16) (payload : Bytes)
  | ack (block : UInt16)
  | error (code : UInt16) (message : String)
  | optionAck
  deriving DecidableEq, Repr, Inhabited

inductive Malformed
  | tooShort (size : Nat)
  | unknownOpcode (value : UInt16)
  deriving DecidableEq, Repr, Inhabited

def Malformed.message : Malformed → String
  | tooShort size => "packet too short: " ++ Decimal.render size ++ " bytes"
  | unknownOpcode value => "invalid opcode: " ++ Decimal.render value.toNat

namespace Opcode

def word : Opcode → UInt16
  | request .read => 1
  | request .write => 2
  | data => 3
  | ack => 4
  | error => 5
  | optionAck => 6

def all : List Opcode := [request .read, request .write, data, ack, error, optionAck]

def ofWord? (value : UInt16) : Option Opcode := all.find? (·.word = value)

theorem ofWord?_word (opcode : Opcode) : ofWord? opcode.word = some opcode := by
  match opcode with
  | request .read | request .write | data | ack | error | optionAck => decide

end Opcode

namespace Packet

def headerSize : Nat := 4
def defaultBlockSize : Nat := 512
def minBlockSize : Nat := 8
def maxBlockSize : Nat := 65464

/-- An error message leaves room for the header and the final zero in a packet of
the default size. -/
def maxMessageSize : Nat := defaultBlockSize + headerSize - headerSize - 1

/-- One byte more than the largest legal packet, so that an oversized one is seen as such. -/
def receiveLimit : Nat := maxBlockSize + headerSize + 1

def opcode? (bytes : Bytes) : Except Malformed (Opcode × Bytes) :=
  match bytes with
  | high :: low :: body =>
    match Opcode.ofWord? (Bytes.word high low) with
    | some opcode => .ok (opcode, body)
    | none => .error (.unknownOpcode (Bytes.word high low))
  | _ => .error (.tooShort bytes.length)

def numbered (size : Nat) (body : Bytes) : Except Malformed (UInt16 × Bytes) :=
  match body with
  | high :: low :: rest => .ok (Bytes.word high low, rest)
  | _ => .error (.tooShort size)

def decode (bytes : Bytes) : Except Malformed Packet := do
  let (opcode, body) ← opcode? bytes
  match opcode with
  | .request direction => return .request direction
  | .optionAck => return .optionAck
  | .data => return (fun (block, payload) => .data block payload) (← numbered bytes.length body)
  | .ack => return (fun (block, _) => .ack block) (← numbered bytes.length body)
  | .error =>
    let (code, text) ← numbered bytes.length body
    return .error code (Utf8.decodeLossy (text.takeWhile (· != 0)))

def encodeText (text : String) : Bytes := Utf8.encode text ++ [0]

def encodePairs (pairs : List (String × String)) : Bytes :=
  pairs.flatMap fun (name, value) => encodeText name ++ encodeText value

def encodeAck (block : UInt16) : Bytes :=
  Bytes.ofWord Opcode.ack.word ++ Bytes.ofWord block

def encodeData (block : UInt16) (payload : Bytes) : Bytes :=
  Bytes.ofWord Opcode.data.word ++ Bytes.ofWord block ++ payload

def encodeOptionAck (pairs : List (String × String)) : Bytes :=
  Bytes.ofWord Opcode.optionAck.word ++ encodePairs pairs

def encodeRequest (opcode : Opcode) (filename mode : String)
    (pairs : List (String × String)) : Bytes :=
  Bytes.ofWord opcode.word ++ encodeText filename ++ encodeText mode ++ encodePairs pairs

/-- The message is cut at a character so that the packet fits the default size. -/
def encodeError (condition : Condition) : Bytes :=
  Bytes.ofWord Opcode.error.word ++ Bytes.ofWord condition.wireCode ++
    encodeText (String.ofList (Utf8.within maxMessageSize condition.message.toList))

end Packet

end TftpReceiver
