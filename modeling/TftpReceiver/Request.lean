import TftpReceiver.Packet

/-! Read and write requests: a filename, a mode and option pairs, each ended by a
zero byte, then any padding of zeros. -/

namespace TftpReceiver

inductive Mode
  | octet
  deriving DecidableEq, Repr, Inhabited

structure Request where
  direction : Direction
  filename : String
  mode : Mode
  options : List (String × String)
  deriving DecidableEq, Repr, Inhabited

namespace Direction

def name : Direction → String
  | read => "RRQ"
  | write => "WRQ"

end Direction

namespace Mode

def name : Mode → String
  | octet => "octet"

/-- Upper and lower case ASCII letters count as the same. -/
def parse? (text : String) : Option Mode :=
  if text.toList.map Char.toLower = "octet".toList then some octet else none

end Mode

namespace Request

/-- Option pairs up to the end or to an empty name, after which only zeros may follow. -/
def pairs? (bytes : Bytes) : Option (List (Bytes × Bytes)) :=
  if bytes = [] then some []
  else
    match named : Bytes.field? bytes with
    | none => none
    | some (name, rest) =>
      if name = [] then
        if rest.all (· = 0) then some [] else none
      else
        match valued : Bytes.field? rest with
        | none => none
        | some (value, rest') =>
          have _shorter := Nat.lt_trans (Bytes.field?_length valued) (Bytes.field?_length named)
          (pairs? rest').map ((name, value) :: ·)
termination_by bytes.length

def lossyPair (pair : Bytes × Bytes) : String × String :=
  (Utf8.decodeLossy pair.1, Utf8.decodeLossy pair.2)

/-- Everything after the opcode. -/
def body? (direction : Direction) (bytes : Bytes) : Option Request := do
  let (filename, rest) ← Bytes.field? bytes
  guard (filename ≠ [])
  let filename ← Utf8.decode? filename
  let (mode, rest) ← Bytes.field? rest
  let mode ← (Utf8.decode? mode).bind Mode.parse?
  let pairs ← pairs? rest
  return { direction, filename, mode, options := pairs.map lossyPair }

def decode (bytes : Bytes) : Except ErrorCode Request :=
  match bytes with
  | high :: low :: body =>
    if body.length < 2 then .error .illegalOperation
    else
      match Opcode.ofWord? (Bytes.word high low) with
      | some (.request direction) =>
        match body? direction body with
        | some request => .ok request
        | none => .error .illegalOperation
      | _ => .error .unknownTransfer
  | _ => .error .illegalOperation

end Request

end TftpReceiver
